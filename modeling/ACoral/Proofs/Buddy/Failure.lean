import ACoral.Proofs.Buddy.Run

/-!
# `ACoral.Proofs.Buddy.Failure`: requests that cannot be served

`buddy_r_malloc` lowers `free_num` before it searches, and it never looks
at the answer of the search. So a request for which no block is free
leaves no trace only if it is refused before the search.

- `noFreeBlock_iff`: in a run with sound searches, `noFreeBlock` means
  that the tiling has no free block that is large enough.
- `buddyMalloc_eq`: `buddy_malloc` refuses a request early, does not
  return, or searches.
- `buddyRMalloc_nothing`: what a search that finds no word leaves behind.
- `failureAtomic_iff`: when a request without a free block leaves no
  trace.
-/

set_option autoImplicit false

namespace ACoral

open Lib

/-- If no block is free for the request, `buddy_malloc` returns `NULL` and
leaves the control block as it was. -/
def FailureAtomic (size : Nat) (b : BlockCtr) : Prop :=
  noFreeBlock size b = true → buddyMalloc size b = some (0, b)

/-! ### What it means that no block is free -/

/-- `noFreeBlock` says that the tiling has no free block of the level that
the request needs, or of a higher one. -/
theorem noFreeBlock_iff {r : BuddyRun} {N k size m : Nat} {t : Tiling N (k + 1)}
    (h : BuddyInv r t)
    (hloop : resizeLoop size 26 BLOCK_SIZE 1 0 = some (BLOCK_SIZE * 2 ^ m, 2 ^ m, m)) :
    noFreeBlock size r.ctrl = true ↔ ∀ l i, m ≤ l → ¬ t.Free l i := by
  unfold noFreeBlock
  rw [hloop]
  simp only [List.all_eq_true, List.mem_range, Bool.or_eq_true, decide_eq_true_iff,
    Bool.not_eq_true', h.marks.level]
  constructor
  · intro hclear l i hl hi
    have hlk : l < k + 1 := hi.1.level_lt
    have hj := h.marks.words l (by omega) i hi.1.1
    have hset := (h.marks.mark l (by omega) _ hj).mpr ⟨i, hi, rfl⟩
    rcases hclear l hlk with hlt | hclear
    · omega
    · have hbit := hclear _ hj
      rw [acoralGetBit_eq_bit, hset] at hbit
      exact absurd hbit (by decide)
  · intro hnone l hl
    by_cases hlm : l < m
    · exact Or.inl hlm
    · refine Or.inr fun j hj => ?_
      rw [acoralGetBit_eq_bit, Bool.eq_false_iff]
      intro hset
      -- a set bit stands for a free block
      obtain ⟨i, hi, -⟩ := (h.marks.mark l (by omega) j hj).mp hset
      exact hnone l i (by omega) hi

/-! ### The trace of a search -/

/-- A search that finds no linked word answers with the error. -/
theorem recusMallocFrom_nothing {b : BlockCtr} {rounds l : Nat}
    (h : ∀ m, l ≤ m → m < l + rounds → b.freeCur m < 0) :
    recusMallocFrom rounds l b = (KernelError.KR_MEM_ERR_UNDEF.code, b) := by
  induction rounds generalizing l with
  | zero => rfl
  | succ rounds ih =>
      have habove := ih (l := l + 1) fun m hl hm => h m (by omega) (by omega)
      rw [recusMallocFrom, if_pos (h l (Nat.le_refl l) (by omega)), habove]
      -- the level above answers with a negative number
      exact if_pos (by decide)

/-- What `buddy_r_malloc` does after a search that answers with the error: it
stores the level far before the table, and returns an address far before the
heap. -/
theorem buddyRMalloc_failed {b b' : BlockCtr} {l : Nat}
    (h : recusMalloc l (b.setFreeNum (u32 (b.freeNum - 2 ^ l))) =
      (KernelError.KR_MEM_ERR_UNDEF.code, b')) :
    buddyRMalloc l b = (u32 (b'.startAdr - 254 * 2 ^ BLOCK_SHIFT), b'.setBlock (-127) l) := by
  rw [code_KR_MEM_ERR_UNDEF] at h
  unfold buddyRMalloc
  dsimp only
  rw [h]
  rfl

/-- What it does when no level has a linked word: the blocks are off
`free_num`. -/
theorem buddyRMalloc_nothing {b : BlockCtr} {l : Nat}
    (h : ∀ m, l ≤ m → m < b.level → b.freeCur m < 0) :
    buddyRMalloc l b = (u32 (b.startAdr - 254 * 2 ^ BLOCK_SHIFT),
      (b.setFreeNum (u32 (b.freeNum - 2 ^ l))).setBlock (-127) l) :=
  buddyRMalloc_failed <| recusMallocFrom_nothing fun m hl hm => h m hl (by
    show m < b.level
    have : m < l + (b.level - l) := hm
    omega)

/-- Every search leaves the lowered `free_num` behind. -/
theorem freeNum_buddyRMalloc (l : Nat) (b : BlockCtr) :
    (buddyRMalloc l b).2.freeNum = u32 (b.freeNum - 2 ^ l) := by
  have hsearch := (recusMallocFrom_sameHeap (b.level - l) l
    (b.setFreeNum (u32 (b.freeNum - 2 ^ l)))).freeNum
  unfold buddyRMalloc
  dsimp only
  split
  · exact hsearch
  · exact hsearch

/-- The number that is taken off `free_num` is none that wraps around to
nothing. -/
theorem u32_sub_two_pow_ne {n m : Nat} (hm : m ≤ 24) : u32 (n - 2 ^ m) ≠ n := by
  have hpos : 0 < 2 ^ m := Nat.two_pow_pos m
  have hle : 2 ^ m ≤ 2 ^ 24 := Nat.pow_le_pow_right (by decide) hm
  have hcast : ((2 : Int) ^ m) = ((2 ^ m : Nat) : Int) := by push_cast; rfl
  rw [hcast]
  unfold u32
  omega

/-! ### When a failure leaves no trace -/

/-- `buddy_malloc` refuses the request early, does not return, or searches
for a block of the level it needs. -/
theorem buddyMalloc_eq (size : Nat) (b : BlockCtr) :
    (refusedEarly size b = true ∧ buddyMalloc size b = some (0, b)) ∨
      refusedEarly size b = false ∧ (buddyMalloc size b = none ∨
        ∃ m ≤ 24, buddyMalloc size b = some (buddyRMalloc m b)) := by
  unfold refusedEarly buddyMalloc
  by_cases hstate : b.state = MEM_NO_ALLOC
  · exact Or.inl ⟨by rw [decide_eq_true hstate, Bool.true_or], if_pos hstate⟩
  · rw [decide_eq_false hstate, Bool.false_or, if_neg hstate]
    rcases resizeLoop_cases size with ⟨m, hm, -, -, hloop⟩ | ⟨-, hloop⟩
    · rw [hloop, Option.bind_some]
      dsimp only
      rw [Bool.or_eq_true, Bool.or_eq_false_iff, decide_eq_true_iff, decide_eq_true_iff,
        decide_eq_false_iff_not, decide_eq_false_iff_not]
      by_cases hnum : 2 ^ m > b.freeNum
      · exact Or.inl ⟨Or.inl hnum, if_pos hnum⟩
      · rw [if_neg hnum]
        by_cases hlevel : m ≥ b.level
        · exact Or.inl ⟨Or.inr hlevel, if_pos hlevel⟩
        · exact Or.inr ⟨⟨hnum, hlevel⟩, Or.inr ⟨m, hm, if_neg hlevel⟩⟩
    · -- the loop that doubles the size does not end
      rw [hloop]
      exact Or.inr ⟨rfl, Or.inl rfl⟩

/-- A request for which no block is free leaves no trace exactly when it is
refused before the search. -/
theorem failureAtomic_iff (size : Nat) (b : BlockCtr) :
    FailureAtomic size b ↔ (noFreeBlock size b = true → refusedEarly size b = true) := by
  unfold FailureAtomic
  refine imp_congr_right fun _ => ?_
  rcases buddyMalloc_eq size b with ⟨hearly, hnull⟩ | ⟨hearly, hnone | ⟨m, hm, hsearch⟩⟩
  · exact iff_of_true hnull hearly
  · rw [hearly, hnone]
    simp
  · rw [hearly, hsearch]
    refine iff_of_false (fun heq => ?_) (by decide)
    have hnum : (buddyRMalloc m b).2.freeNum = b.freeNum := by rw [Option.some.inj heq]
    rw [freeNum_buddyRMalloc] at hnum
    exact u32_sub_two_pow_ne hm hnum

/-- On a heap of three blocks, two of which are free but no pair, a request
of 256 bytes is answered with an address outside of the heap, and
`free_num` is 0 from then on. -/
theorem failureAtomic_fails :
    ∃ r, heapRun (guarded searchGuard (buddyStep 8)) 4 676 emptyMemory
        [.buddyMalloc 128, .buddyMalloc 128, .buddyFree 260] = some r ∧
      noFreeBlock 256 r.ctrl = true ∧ r.ctrl.freeNum = 2 ∧
      (buddyMalloc 256 r.ctrl).map (fun p => (p.1, p.2.freeNum)) = some (4294934788, 0) ∧
      ¬ FailureAtomic 256 r.ctrl := by
  have hrun : (heapRun (guarded searchGuard (buddyStep 8)) 4 676 emptyMemory
      [.buddyMalloc 128, .buddyMalloc 128, .buddyFree 260]).map
        (fun r => (noFreeBlock 256 r.ctrl, r.ctrl.freeNum,
          (buddyMalloc 256 r.ctrl).map fun p => (p.1, p.2.freeNum))) =
        some (true, 2, some (4294934788, 0)) := by decide +kernel
  obtain ⟨r, hr, hvalues⟩ := Option.map_eq_some_iff.mp hrun
  obtain ⟨hnone, hnum, hmalloc⟩ : noFreeBlock 256 r.ctrl = true ∧ r.ctrl.freeNum = 2 ∧
      (buddyMalloc 256 r.ctrl).map (fun p => (p.1, p.2.freeNum)) = some (4294934788, 0) := by
    simpa using hvalues
  refine ⟨r, hr, hnone, hnum, hmalloc, fun hatomic => ?_⟩
  rw [hatomic hnone] at hmalloc
  simp at hmalloc

end ACoral
