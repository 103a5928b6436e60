import ACoral.Kernel.ResPool
import Mathlib.Tactic.Common
import Mathlib.Order.Basic

/-!
# `ACoral.Proofs.ResPool.Word`: the word that a resource starts with

While a resource is free the word holds its index above the index of the
next free one (`freeWord`). While it is held the word is an id: the index
of the pool, its type, the index of the resource, and the CPU.

- `index_freeWord`, `nextId_freeWord`: the two halves of a free word.
- `getResId_freeWord`: the id that `acoral_get_res` makes of it.
- `poolIndex_resId`, `resIndex_resId`: what the lookups read from an id,
  whatever its CPU field holds.
- `coreId_rdyqueueAddId`: the scheduler writes the CPU field only.
-/

set_option autoImplicit false

namespace ACoral

/-- The word of a free resource. -/
def freeWord (index : Nat) (next : BitVec 16) : BitVec 32 :=
  setNextId (BitVec.ofNat 32 index <<< ACORAL_RES_INDEX_INIT_BIT) next

/-- The id of a pool. -/
def poolId (type : ResType) (i : Fin ACORAL_MAX_POOLS) : BitVec 32 :=
  BitVec.ofNat 32 type <<< ACORAL_RES_TYPE_BIT ||| BitVec.ofNat 32 i

/-- The id of a resource on CPU 0. -/
def resId (index : Nat) (id : BitVec 32) : BitVec 32 :=
  BitVec.ofNat 32 index <<< ACORAL_RES_INDEX_BIT ||| id

/-- An id without its CPU field. -/
def coreId (id : BitVec 32) : BitVec 32 := id &&& 0x00FFFFFF

/-- The resources that the index field can tell apart. -/
def RES_INDEX_NUM : Nat := 1024

/-! ### Bits -/

theorem testBit_index {index j : Nat} (hindex : index < RES_INDEX_NUM) (hj : 10 ≤ j) :
    index.testBit j = false := by
  have hpow : 2 ^ 10 ≤ 2 ^ j := Nat.pow_le_pow_right (by decide) hj
  exact Nat.testBit_lt_two_pow (Nat.lt_of_lt_of_le hindex hpow)

theorem getLsbD_resIndexMask (j : Nat) :
    ACORAL_RES_INDEX_MASK.getLsbD j = (decide (14 ≤ j) && decide (j < 24)) := by
  by_cases hj : j < 32
  · have hall : ∀ j : Fin 32, ACORAL_RES_INDEX_MASK.getLsbD j =
        (decide (14 ≤ j.val) && decide (j.val < 24)) := by decide
    exact hall ⟨j, hj⟩
  · rw [BitVec.getLsbD_of_ge _ _ (by omega)]
    simp; omega

theorem getLsbD_poolIndexMask (j : Nat) :
    ACORAL_POOL_INDEX_MASK.getLsbD j = decide (j < 10) := by
  by_cases hj : j < 32
  · have hall : ∀ j : Fin 32, ACORAL_POOL_INDEX_MASK.getLsbD j = decide (j.val < 10) := by decide
    exact hall ⟨j, hj⟩
  · rw [BitVec.getLsbD_of_ge _ _ (by omega)]
    simp; omega

theorem getLsbD_highHalf (j : Nat) :
    (0xFFFF0000 : BitVec 32).getLsbD j = (decide (16 ≤ j) && decide (j < 32)) := by
  by_cases hj : j < 32
  · have hall : ∀ j : Fin 32, (0xFFFF0000 : BitVec 32).getLsbD j =
        (decide (16 ≤ j.val) && decide (j.val < 32)) := by decide
    exact hall ⟨j, hj⟩
  · rw [BitVec.getLsbD_of_ge _ _ (by omega)]
    simp; omega

theorem getLsbD_coreMask (j : Nat) : (0x00FFFFFF : BitVec 32).getLsbD j = decide (j < 24) := by
  by_cases hj : j < 32
  · have hall : ∀ j : Fin 32, (0x00FFFFFF : BitVec 32).getLsbD j = decide (j.val < 24) := by decide
    exact hall ⟨j, hj⟩
  · rw [BitVec.getLsbD_of_ge _ _ (by omega)]
    simp; omega

/-- A free word, bit by bit. -/
theorem getLsbD_freeWord (index : Nat) (next : BitVec 16) {j : Nat} (hj : j < 32) :
    (freeWord index next).getLsbD j =
      if j < 16 then next.getLsbD j else index.testBit (j - 16) := by
  simp only [freeWord, setNextId, ACORAL_RES_INDEX_INIT_BIT, BitVec.getLsbD_or, BitVec.getLsbD_and,
    getLsbD_highHalf, BitVec.getLsbD_shiftLeft, BitVec.getLsbD_ofNat, BitVec.getLsbD_setWidth]
  by_cases h16 : j < 16
  · simp [h16, hj]
  · have hnext : next.getLsbD j = false := BitVec.getLsbD_of_ge _ _ (by omega)
    have h16' : 16 ≤ j := Nat.le_of_not_lt h16
    have hsub : j - 16 < 32 := by omega
    simp [h16, h16', hj, hsub]

/-- The low half of a free word. -/
theorem nextId_freeWord (index : Nat) (next : BitVec 16) : nextId (freeWord index next) = next := by
  apply BitVec.eq_of_getLsbD_eq
  intro j hj
  rw [nextId, BitVec.getLsbD_setWidth, getLsbD_freeWord index next (by omega)]
  simp [hj]

/-- The high half of a free word is its index. -/
theorem index_freeWord (index : Nat) (next : BitVec 16) :
    ((freeWord index next).sshiftRight ACORAL_RES_INDEX_INIT_BIT).setWidth 16 =
      BitVec.ofNat 16 index := by
  apply BitVec.eq_of_getLsbD_eq
  intro j hj
  have hlt : ACORAL_RES_INDEX_INIT_BIT + j < 32 := by
    simp only [ACORAL_RES_INDEX_INIT_BIT]; omega
  rw [BitVec.getLsbD_setWidth, BitVec.getLsbD_sshiftRight, if_pos hlt,
    getLsbD_freeWord index next hlt, if_neg (by simp [ACORAL_RES_INDEX_INIT_BIT])]
  have hidx : ACORAL_RES_INDEX_INIT_BIT + j - 16 = j := Nat.add_sub_cancel_left 16 j
  rw [BitVec.getLsbD_ofNat, hidx]
  have hhi : ¬ 32 ≤ j := by omega
  simp [hj, hhi]

/-- The id that `acoral_get_res` makes of a free word. -/
theorem getResId_freeWord {index : Nat} (hindex : index < RES_INDEX_NUM) (next : BitVec 16)
    (id : BitVec 32) :
    (((freeWord index next).sshiftRight (ACORAL_RES_INDEX_INIT_BIT - ACORAL_RES_INDEX_BIT)
      &&& ACORAL_RES_INDEX_MASK) ||| id) = resId index id := by
  apply BitVec.eq_of_getLsbD_eq
  intro j hj
  simp only [resId, BitVec.getLsbD_or, BitVec.getLsbD_and, getLsbD_resIndexMask,
    BitVec.getLsbD_sshiftRight, BitVec.getLsbD_shiftLeft, BitVec.getLsbD_ofNat,
    ACORAL_RES_INDEX_INIT_BIT, ACORAL_RES_INDEX_BIT]
  congr 1
  -- the mask cuts the field of the index out of the shifted word
  by_cases hlo : j < 14
  · simp [hlo]
  · by_cases hhi : j < 24
    · have hlt : 16 - 14 + j < 32 := by omega
      rw [if_pos hlt, getLsbD_freeWord index next hlt, if_neg (by omega)]
      have hidx : 16 - 14 + j - 16 = j - 14 := by omega
      have hsub : j - 14 < 32 := by omega
      have hlo' : 14 ≤ j := Nat.le_of_not_lt hlo
      simp [hidx, hj, hhi, hlo, hlo', hsub]
    · simp [hhi, testBit_index hindex (show 10 ≤ j - 14 by omega)]

/-! ### The lookups -/

/-- The index of the pool in an id. -/
def poolIndex (id : BitVec 32) : Nat :=
  ((id &&& ACORAL_POOL_INDEX_MASK) >>> ACORAL_POOL_INDEX_BIT).toNat

/-- The index of the resource in an id. -/
def resIndex (id : BitVec 32) : Nat :=
  ((id &&& ACORAL_RES_INDEX_MASK) >>> ACORAL_RES_INDEX_BIT).toNat

/-- The CPU field is none of the fields that the lookups read. -/
theorem poolIndex_coreId (id : BitVec 32) : poolIndex (coreId id) = poolIndex id := by
  have hmask : coreId id &&& ACORAL_POOL_INDEX_MASK = id &&& ACORAL_POOL_INDEX_MASK := by
    rw [coreId, BitVec.and_assoc]
    rfl
  rw [poolIndex, hmask, poolIndex]

theorem resIndex_coreId (id : BitVec 32) : resIndex (coreId id) = resIndex id := by
  have hmask : coreId id &&& ACORAL_RES_INDEX_MASK = id &&& ACORAL_RES_INDEX_MASK := by
    rw [coreId, BitVec.and_assoc]
    rfl
  rw [resIndex, hmask, resIndex]

/-- The fields of an id, bit by bit. -/
theorem getLsbD_resId (index : Nat) (type : ResType) (i : Fin ACORAL_MAX_POOLS) {j : Nat}
    (hj : j < 32) :
    (resId index (poolId type i)).getLsbD j =
      if j < 10 then i.val.testBit j
      else if j < 14 then type.val.testBit (j - 10)
      else index.testBit (j - 14) := by
  have hi : ∀ j, 10 ≤ j → i.val.testBit j = false := by
    intro j hj
    have hlt : i.val < 2 ^ 6 := Nat.lt_trans i.isLt (show 40 < 2 ^ 6 by decide)
    have hpow : 2 ^ 6 ≤ 2 ^ j := Nat.pow_le_pow_right (by decide) (by omega)
    exact Nat.testBit_lt_two_pow (Nat.lt_of_lt_of_le hlt hpow)
  have htype : ∀ j, 4 ≤ j → type.val.testBit j = false := by
    intro j hj
    have hpow : 2 ^ 4 ≤ 2 ^ j := Nat.pow_le_pow_right (by decide) hj
    exact Nat.testBit_lt_two_pow (Nat.lt_of_lt_of_le type.isLt hpow)
  simp only [resId, poolId, BitVec.getLsbD_or, BitVec.getLsbD_shiftLeft, BitVec.getLsbD_ofNat,
    ACORAL_RES_INDEX_BIT, ACORAL_RES_TYPE_BIT]
  by_cases h10 : j < 10
  · simp [h10, hj, show j < 14 by omega]
  · by_cases h14 : j < 14
    · simp [h10, h14, hj, hi j (by omega), show j - 10 < 32 by omega]
    · simp [h10, h14, hj, hi j (by omega), htype (j - 10) (by omega), show j - 14 < 32 by omega]

/-- `acoral_get_pool_by_id` reads the index of the pool. -/
theorem poolIndex_resId (index : Nat) (type : ResType) (i : Fin ACORAL_MAX_POOLS) :
    poolIndex (resId index (poolId type i)) = i := by
  have hcut : resId index (poolId type i) &&& ACORAL_POOL_INDEX_MASK = BitVec.ofNat 32 i := by
    apply BitVec.eq_of_getLsbD_eq
    intro j hj
    rw [BitVec.getLsbD_and, getLsbD_resId index type i hj, getLsbD_poolIndexMask,
      BitVec.getLsbD_ofNat]
    by_cases h10 : j < 10
    · simp [h10, hj]
    · have hlt : i.val < 2 ^ 6 := Nat.lt_trans i.isLt (show 40 < 2 ^ 6 by decide)
      have hpow : 2 ^ 6 ≤ 2 ^ j := Nat.pow_le_pow_right (by decide) (by omega)
      simp [h10, Nat.testBit_lt_two_pow (Nat.lt_of_lt_of_le hlt hpow)]
  have hlt : i.val < 2 ^ 32 := Nat.lt_trans i.isLt (show 40 < 2 ^ 32 by decide)
  rw [poolIndex, hcut, ACORAL_POOL_INDEX_BIT, BitVec.ushiftRight_zero, BitVec.toNat_ofNat,
    Nat.mod_eq_of_lt hlt]

/-- `acoral_get_res_by_id` reads the index of the resource. -/
theorem resIndex_resId {index : Nat} (hindex : index < RES_INDEX_NUM) (type : ResType)
    (i : Fin ACORAL_MAX_POOLS) : resIndex (resId index (poolId type i)) = index := by
  have hcut : (resId index (poolId type i) &&& ACORAL_RES_INDEX_MASK) >>> ACORAL_RES_INDEX_BIT =
      BitVec.ofNat 32 index := by
    apply BitVec.eq_of_getLsbD_eq
    intro j hj
    rw [BitVec.getLsbD_ushiftRight, BitVec.getLsbD_and, getLsbD_resIndexMask,
      BitVec.getLsbD_ofNat, ACORAL_RES_INDEX_BIT]
    by_cases h10 : j < 10
    · rw [getLsbD_resId index type i (show 14 + j < 32 by omega)]
      simp [show ¬ 14 + j < 10 by omega, show ¬ 14 + j < 14 by omega, show 14 + j < 24 by omega,
        hj]
    · simp [show ¬ 14 + j < 24 by omega, testBit_index hindex (show 10 ≤ j by omega)]
  have hlt : index < 2 ^ 32 := Nat.lt_trans hindex (show 1024 < 2 ^ 32 by decide)
  rw [resIndex, hcut, BitVec.toNat_ofNat, Nat.mod_eq_of_lt hlt]

/-- A fresh id has an empty CPU field. -/
theorem coreId_resId {index : Nat} (hindex : index < RES_INDEX_NUM) (type : ResType)
    (i : Fin ACORAL_MAX_POOLS) :
    coreId (resId index (poolId type i)) = resId index (poolId type i) := by
  apply BitVec.eq_of_getLsbD_eq
  intro j hj
  rw [coreId, BitVec.getLsbD_and, getLsbD_coreMask, getLsbD_resId index type i hj]
  by_cases h24 : j < 24
  · simp [h24]
  · simp [show ¬ j < 10 by omega, show ¬ j < 14 by omega, h24,
      testBit_index hindex (show 10 ≤ j - 14 by omega)]

/-- The scheduler writes the CPU field only. -/
theorem coreId_rdyqueueAddId (id : BitVec 32) (cpu : Nat) :
    coreId (rdyqueueAddId id cpu) = coreId id := by
  unfold rdyqueueAddId
  split
  · rw [coreId, BitVec.and_assoc]
    rfl
  · split
    · apply BitVec.eq_of_getLsbD_eq
      intro j hj
      have hbit : (1#32 <<< ACORAL_RES_CPU_BIT).getLsbD j = decide (j = 24) := by
        have hall : ∀ j : Fin 32, (1#32 <<< ACORAL_RES_CPU_BIT).getLsbD j =
            decide (j.val = 24) := by decide
        exact hall ⟨j, hj⟩
      rw [coreId, coreId, BitVec.getLsbD_and, BitVec.getLsbD_and, BitVec.getLsbD_or, hbit,
        getLsbD_coreMask]
      by_cases h24 : j < 24
      · simp [h24, show j ≠ 24 by omega]
      · simp [h24]
    · rfl

end ACoral
