import ACoral.Proofs.Buddy.Run

/-!
# `ACoral.Proofs.Buddy.Rounding`: the size of a request

`buddy_malloc` and `buddy_malloc_size` round a request up to a block, each
with a doubling loop of its own. The loop of `buddy_malloc_size` stops at the
number of levels too, the one of `buddy_malloc` only at a size that is large
enough: above half of the 32-bit range no size is.

* `resizeLoop_never`, in `Proofs.Buddy.Malloc`, and `mallocSizeLoop_stable`:
  where the loops end.
* `roundsUp_iff`: the two agree, and refuse what is too large, exactly where
  the loop of `buddy_malloc` ends.
-/

set_option autoImplicit false

namespace ACoral

/-- The loops end for a request, and where `buddy_malloc` gets to its search
it looks for a block of the size that `buddy_malloc_size` reports. A request
above the blocks of the top level is refused. -/
structure RoundsUp (size : Nat) (b : BlockCtr) : Prop where
  ends : b.state = MEM_NO_ALLOC ∨ ∃ rounds, (resizeLoop size rounds BLOCK_SIZE 1 0).isSome
  sizeEnds : ∀ rounds, b.level ≤ rounds →
    mallocSizeLoop size b.level rounds BLOCK_SIZE 0 =
      mallocSizeLoop size b.level b.level BLOCK_SIZE 0
  reserves : ∀ resizeSize num level0, b.state ≠ MEM_NO_ALLOC →
    resizeLoop size 26 BLOCK_SIZE 1 0 = some (resizeSize, num, level0) →
    num ≤ b.freeNum → level0 < b.level →
      buddyMalloc size b = some (buddyRMalloc level0 b) ∧
      buddyMallocSize size b = BLOCK_SIZE * 2 ^ level0 ∧ size ≤ BLOCK_SIZE * 2 ^ level0
  refuses : BLOCK_SIZE * 2 ^ (b.level - 1) < size → buddyMalloc size b = some (0, b)

/-! ### Where the loops end -/

/-- The loop of `buddy_malloc_size` has ended after as many rounds as there
are levels left. -/
theorem mallocSizeLoop_stable {size level rounds rounds' : Nat} :
    ∀ {level0 resizeSize : Nat}, level ≤ level0 + rounds → level ≤ level0 + rounds' →
      mallocSizeLoop size level rounds resizeSize level0 =
        mallocSizeLoop size level rounds' resizeSize level0 := by
  induction rounds generalizing rounds' with
  | zero =>
      intro level0 resizeSize h _
      cases rounds' with
      | zero => rfl
      | succ rounds' =>
          rw [mallocSizeLoop, mallocSizeLoop, if_neg (by omega)]
  | succ rounds ih =>
      intro level0 resizeSize h h'
      cases rounds' with
      | zero => rw [mallocSizeLoop, mallocSizeLoop, if_neg (by omega)]
      | succ rounds' =>
          rw [mallocSizeLoop, mallocSizeLoop]
          split
          · exact ih (by omega) (by omega)
          · rfl

/-! ### What is reserved and what is refused -/

/-- A request that the loop rounds up is refused, or it reserves the block
whose size is reported. -/
theorem roundsUp_of_le {size : Nat} {b : BlockCtr} (hsize : size ≤ 2 ^ 31) : RoundsUp size b := by
  rcases resizeLoop_cases size with ⟨m, hm, hfit, hmin, hloop⟩ | ⟨hlarge, -⟩
  case inr => omega
  have hcall : b.state ≠ MEM_NO_ALLOC → buddyMalloc size b =
      if 2 ^ m > b.freeNum then some (0, b)
      else if m ≥ b.level then some (0, b)
      else some (buddyRMalloc m b) := by
    intro hstate
    rw [buddyMalloc, if_neg hstate, hloop, Option.bind_some]
  refine ⟨Or.inr ⟨26, by rw [hloop]; rfl⟩, ?_, ?_, ?_⟩
  · intro rounds hrounds
    exact mallocSizeLoop_stable (by omega) (by omega)
  · intro resizeSize num level0 hstate hloop' hnum hlevel
    rw [hloop, Option.some.injEq, Prod.mk.injEq, Prod.mk.injEq] at hloop'
    obtain ⟨-, rfl, rfl⟩ := hloop'
    refine ⟨?_, ?_, hfit⟩
    · rw [hcall hstate, if_neg (by omega), if_neg (by omega)]
    · have hreport := mallocSizeLoop_eq hlevel hm (Nat.zero_le m)
        (show m ≤ 0 + b.level by omega) hfit fun c _ hc => hmin c hc
      rw [Nat.pow_zero, Nat.mul_one] at hreport
      rw [buddyMallocSize, if_neg hstate, hreport]
  · intro hlarge
    by_cases hstate : b.state = MEM_NO_ALLOC
    · rw [buddyMalloc, if_pos hstate]
    · -- a block of a level below the number of levels would be too small
      have hlevel : b.level ≤ m := by
        by_contra hlt
        have hpow : 2 ^ m ≤ 2 ^ (b.level - 1) := Nat.pow_le_pow_right (by decide) (by omega)
        have hle := Nat.mul_le_mul_left BLOCK_SIZE hpow
        omega
      rw [hcall hstate, if_pos hlevel]
      split <;> rfl

/-- A heap that is too small for a block answers every request with `NULL`. -/
theorem roundsUp_of_noAlloc {size : Nat} {b : BlockCtr} (hstate : b.state = MEM_NO_ALLOC) :
    RoundsUp size b where
  ends := Or.inl hstate
  sizeEnds := fun rounds hrounds => mallocSizeLoop_stable (by omega) (by omega)
  reserves := fun _ _ _ h => absurd hstate h
  refuses := fun _ => by rw [buddyMalloc, if_pos hstate]

/-- For every request and every heap: the rounding ends, and `buddy_malloc`
and `buddy_malloc_size` agree, exactly for the requests of at most half of the
32-bit range, and on a heap that is too small to work. -/
theorem roundsUp_iff (size : Nat) (b : BlockCtr) :
    RoundsUp size b ↔ b.state = MEM_NO_ALLOC ∨ size ≤ 2 ^ 31 := by
  constructor
  · intro h
    rcases h.ends with hstate | ⟨rounds, hends⟩
    · exact Or.inl hstate
    · refine Or.inr ?_
      by_contra hlarge
      rw [resizeLoop_never (by omega) rounds] at hends
      exact absurd hends (by decide)
  · rintro (hstate | hsize)
    · exact roundsUp_of_noAlloc hstate
    · exact roundsUp_of_le hsize

/-- A request of `2 ^ 31 + 1` bytes on a heap of four blocks: the loop of
`buddy_malloc` does not end after any number of rounds. -/
theorem resizeLoop_hangs :
    ∃ b, buddyInit 4 868 emptyMemory = some (.KR_OK, b) ∧
      (∀ rounds, resizeLoop (2 ^ 31 + 1) rounds BLOCK_SIZE 1 0 = none) ∧
      ¬ RoundsUp (2 ^ 31 + 1) b := by
  have hinit : (buddyInit 4 868 emptyMemory).map (fun r => (r.1, r.2.state)) =
      some (.KR_OK, MEM_OK) := by decide +kernel
  obtain ⟨⟨e, b⟩, hb, heq⟩ := Option.map_eq_some_iff.mp hinit
  obtain ⟨rfl, hstate⟩ := Prod.mk.inj heq
  refine ⟨b, hb, fun rounds => resizeLoop_never (by decide) rounds, ?_⟩
  intro h
  rcases h.ends with hno | ⟨rounds, hends⟩
  · rw [show b.state = MEM_OK from hstate] at hno
    exact absurd hno (by decide)
  · rw [resizeLoop_never (by decide) rounds] at hends
    exact absurd hends (by decide)

end ACoral
