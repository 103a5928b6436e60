import ACoral.Kernel.Bitops

/-!
# `ACoral.Proofs.Bitops`: the bitmaps as sets of bit numbers

`Bitmap.bit b nr` is the bit `nr` of the bitmap `b`. The theorems say
what each operation of `Kernel/Bitops.lean` does to that set, so that
no later proof opens a word:

* `bit_acoralSetBit` / `bit_acoralClearBit`: one bit changes, the
  others stay. `acoralGetBit_eq_bit` reads it.
* `acoralFfs_spec`: on a nonempty word the binary search of
  `acoral_ffs` ends at the lowest set bit. The invariant of the search
  is that the lowest set bit of the shifted word lies in its top `2 * h`
  places before the stage of width `h`.
* `acoralFindFirstBit_spec`: on a bitmap with a set bit inside its
  words, `acoral_find_first_bit` ends at the lowest one.
-/

set_option autoImplicit false

namespace ACoral

/-- Bit number `nr` of a bitmap. -/
def Bitmap.bit (b : Bitmap) (nr : Nat) : Bool := (b (nr / 32 : Nat)).getLsbD (nr % 32)

/-- A mask of one bit has exactly that bit. -/
theorem getLsbD_bitMask (nr i : Nat) (hi : i < 32) :
    (bitMask nr).getLsbD i = decide (i = nr % 32) := by
  have hnr : nr % 32 < 32 := Nat.mod_lt _ (by decide)
  unfold bitMask
  rw [BitVec.getLsbD_shiftLeft, BitVec.getLsbD_one]
  by_cases h : i < nr % 32
  · simp [h, Nat.ne_of_lt h]
  · by_cases he : i = nr % 32
    · simp [he, hnr]
    · simp [he, hi]
      omega

/-- A word that meets a mask of one bit has that bit. -/
theorem and_bitMask_ne_zero (w : BitVec 32) (nr : Nat) :
    w &&& bitMask nr ≠ 0 ↔ w.getLsbD (nr % 32) = true := by
  have hnr : nr % 32 < 32 := Nat.mod_lt _ (by decide)
  constructor
  · intro h
    by_contra hb
    refine h (BitVec.eq_of_getLsbD_eq fun i hi => ?_)
    rw [BitVec.getLsbD_and, getLsbD_bitMask nr i hi]
    by_cases he : i = nr % 32
    · simpa [he] using hb
    · simp [he]
  · intro h hz
    have := congrArg (fun v => v.getLsbD (nr % 32)) hz
    simp [BitVec.getLsbD_and, getLsbD_bitMask nr _ hnr, h] at this

/-- `acoral_get_bit` reads the bit. -/
theorem acoralGetBit_eq_bit (b : Bitmap) (nr : Nat) : acoralGetBit nr b = b.bit nr := by
  unfold acoralGetBit Bitmap.bit
  by_cases h : (b (nr / 32 : Nat)).getLsbD (nr % 32) = true
  · rw [h]
    exact decide_eq_true ((and_bitMask_ne_zero _ _).mpr h)
  · rw [Bool.eq_false_iff.mpr h]
    exact decide_eq_false fun hne => h ((and_bitMask_ne_zero _ _).mp hne)

/-- Two bit numbers in one word are told apart by their place in it. -/
private theorem eq_iff_of_div_eq {i j : Nat} (h : i / 32 = j / 32) :
    i = j ↔ i % 32 = j % 32 := by omega

/-- `acoral_set_bit` sets one bit and keeps the others. -/
@[simp] theorem bit_acoralSetBit (b : Bitmap) (nr i : Nat) :
    (acoralSetBit nr b).bit i = (decide (i = nr) || b.bit i) := by
  unfold Bitmap.bit acoralSetBit
  by_cases h : i / 32 = nr / 32
  · rw [h, Function.update_self, BitVec.getLsbD_or,
      getLsbD_bitMask nr _ (Nat.mod_lt _ (by decide)), Bool.or_comm]
    simp only [eq_iff_of_div_eq h]
  · rw [Function.update_of_ne (by omega)]
    have hne : i ≠ nr := fun he => h (by rw [he])
    simp [hne]

/-- `acoral_clear_bit` clears one bit and keeps the others. -/
@[simp] theorem bit_acoralClearBit (b : Bitmap) (nr i : Nat) :
    (acoralClearBit nr b).bit i = (decide (i ≠ nr) && b.bit i) := by
  unfold Bitmap.bit acoralClearBit
  by_cases h : i / 32 = nr / 32
  · rw [h, Function.update_self, BitVec.getLsbD_and, BitVec.getLsbD_not,
      getLsbD_bitMask nr _ (Nat.mod_lt _ (by decide)), Bool.and_comm]
    have hlt : i % 32 < 32 := Nat.mod_lt _ (by decide)
    simp [hlt, eq_iff_of_div_eq h]
  · rw [Function.update_of_ne (by omega)]
    have hne : i ≠ nr := fun he => h (by rw [he])
    simp [hne]

/-- Setting a bit touches one word. -/
theorem acoralSetBit_of_ne (b : Bitmap) (nr : Nat) {w : Int} (h : w ≠ (nr / 32 : Nat)) :
    acoralSetBit nr b w = b w := Function.update_of_ne h _ _

/-- Clearing a bit touches one word. -/
theorem acoralClearBit_of_ne (b : Bitmap) (nr : Nat) {w : Int} (h : w ≠ (nr / 32 : Nat)) :
    acoralClearBit nr b w = b w := Function.update_of_ne h _ _

/-- Clearing a bit of an empty word changes nothing. -/
theorem acoralClearBit_of_word_zero {b : Bitmap} {nr : Nat} (h : b (nr / 32 : Nat) = 0) :
    acoralClearBit nr b = b := by
  unfold acoralClearBit
  rw [h, show (0 : BitVec 32) &&& ~~~ bitMask nr = 0 from BitVec.zero_and, ← h,
    Function.update_eq_self]

/-- A word is empty exactly when all its bits are clear. -/
theorem word_eq_zero_iff (b : Bitmap) (w : Nat) :
    b w = 0 ↔ ∀ i, i / 32 = w → b.bit i = false := by
  constructor
  · intro h i hi
    unfold Bitmap.bit
    rw [hi, h]
    simp
  · intro h
    refine BitVec.eq_of_getLsbD_eq fun i hi => ?_
    have hb := h (w * 32 + i) (by omega)
    unfold Bitmap.bit at hb
    rw [show (w * 32 + i) / 32 = w by omega, show (w * 32 + i) % 32 = i by omega] at hb
    simpa using hb

/-- Words with the same bits are the same. -/
theorem word_eq_of_bits {b b' : Bitmap} {w : Nat} (h : ∀ i, i / 32 = w → b'.bit i = b.bit i) :
    b' w = b w := by
  refine BitVec.eq_of_getLsbD_eq fun i hi => ?_
  have hb := h (w * 32 + i) (by omega)
  unfold Bitmap.bit at hb
  rwa [show (w * 32 + i) / 32 = w by omega, show (w * 32 + i) % 32 = i by omega] at hb

/-! ### The binary search of `acoral_ffs` -/

/-- `c` is the lowest set bit of the word. -/
def IsLowestBit (w : BitVec 32) (c : Nat) : Prop :=
  w.getLsbD c = true ∧ ∀ i < c, w.getLsbD i = false

/-- A nonempty word has a lowest set bit. -/
theorem exists_isLowestBit {w : BitVec 32} (hw : w ≠ 0) : ∃ c, c < 32 ∧ IsLowestBit w c := by
  have hex : ∃ c, w.getLsbD c = true := by
    by_contra hno
    push Not at hno
    exact hw (BitVec.eq_of_getLsbD_eq fun i _ => by simpa using hno i)
  refine ⟨Nat.find hex, ?_, Nat.find_spec hex, fun i hi => ?_⟩
  · exact BitVec.lt_of_getLsbD (Nat.find_spec hex)
  · simpa using Nat.find_min hex hi

/-- A word has one lowest set bit. -/
theorem IsLowestBit.unique {w : BitVec 32} {c d : Nat} (hc : IsLowestBit w c)
    (hd : IsLowestBit w d) : c = d := by
  rcases Nat.lt_trichotomy c d with h | h | h
  · exact absurd hc.1 (by simp [hd.2 c h])
  · exact h
  · exact absurd hd.1 (by simp [hc.2 d h])

/-- The test of one stage. The mask selects the places from
`32 - 2 * h` to `32 - h`; below them the word is empty. -/
theorem and_mask_ne_zero_iff (mask : BitVec 32) {w : BitVec 32} {c h : Nat} (hc : IsLowestBit w c)
    (hlo : 32 - 2 * h ≤ c) (hc32 : c < 32)
    (hmask : ∀ i < 32, mask.getLsbD i = decide (32 - 2 * h ≤ i ∧ i < 32 - h)) :
    w &&& mask ≠ 0 ↔ c < 32 - h := by
  constructor
  · intro hne
    by_contra hge
    refine hne (BitVec.eq_of_getLsbD_eq fun i hi => ?_)
    rw [BitVec.getLsbD_and, hmask i hi]
    by_cases hic : i < c
    · simp [hc.2 i hic]
    · rw [decide_eq_false (by omega : ¬ (32 - 2 * h ≤ i ∧ i < 32 - h))]
      simp
  · intro hlt hz
    have hbit := congrArg (fun v => v.getLsbD c) hz
    simp [BitVec.getLsbD_and, hmask c hc32, hc.1, hlo, hlt] at hbit

/-- Moving a word up moves its lowest set bit up. -/
theorem IsLowestBit.shiftLeft {w : BitVec 32} {c h : Nat} (hc : IsLowestBit w c)
    (hlt : c + h < 32) : IsLowestBit (w <<< h) (c + h) := by
  refine ⟨by simp [hlt, hc.1], fun i hi => ?_⟩
  rw [BitVec.getLsbD_shiftLeft]
  by_cases hih : i < h
  · simp [hih]
  · simp [hc.2 (i - h) (by omega)]

/-- The invariant of the search before the stage of width `h`: the
lowest set bit of the shifted word is in the top `2 * h` places, and
the shift made so far is what the answer has dropped by. -/
structure FfsInv (c h : Nat) (kw : Nat × BitVec 32) : Prop where
  le : kw.1 ≤ 31
  lowest : IsLowestBit kw.2 (c + (31 - kw.1))
  lo : 32 - 2 * h ≤ c + (31 - kw.1)
  hi : c + (31 - kw.1) < 32

/-- One stage halves the range the invariant speaks of. -/
theorem ffsStep_inv (mask : BitVec 32) {c h : Nat} {kw : Nat × BitVec 32}
    (hinv : FfsInv c (2 * h) kw)
    (hmask : ∀ i < 32, mask.getLsbD i = decide (32 - 2 * (2 * h) ≤ i ∧ i < 32 - 2 * h)) :
    FfsInv c h (ffsStep mask (2 * h) kw) := by
  obtain ⟨hle, hlow, hlo, hhi⟩ := hinv
  have htest := and_mask_ne_zero_iff mask hlow hlo hhi hmask
  unfold ffsStep
  split
  · rename_i hne
    have hlt := htest.mp hne
    have hidx : c + (31 - (kw.1 - 2 * h)) = c + (31 - kw.1) + 2 * h := by omega
    refine ⟨by simp only; omega, ?_, ?_, ?_⟩ <;> simp only <;> rw [hidx]
    · exact hlow.shiftLeft (by omega)
    · omega
    · omega
  · rename_i hne
    have hge : ¬ c + (31 - kw.1) < 32 - 2 * h := fun hlt => hne (htest.mpr hlt)
    exact ⟨hle, hlow, by omega, hhi⟩

/-- The last line of `acoral_ffs`, which no longer moves the word. -/
theorem ffsLast_eq {c : Nat} {kw : Nat × BitVec 32} (hinv : FfsInv c 1 kw) :
    (if kw.2 &&& 0x40000000#32 ≠ 0 then kw.1 - 1 else kw.1) = c := by
  obtain ⟨hle, hlow, hlo, hhi⟩ := hinv
  have htest := and_mask_ne_zero_iff 0x40000000#32 hlow hlo hhi (by decide)
  split
  · rename_i hne
    have hlt := htest.mp hne
    omega
  · rename_i hne
    have hge : ¬ c + (31 - kw.1) < 32 - 1 := fun hlt => hne (htest.mpr hlt)
    omega

/-- On a nonempty word `acoral_ffs` answers the lowest set bit. -/
theorem acoralFfs_spec {w : BitVec 32} (hw : w ≠ 0) :
    acoralFfs w < 32 ∧ IsLowestBit w (acoralFfs w) := by
  obtain ⟨c, hc32, hc⟩ := exists_isLowestBit hw
  have h16 : FfsInv c (2 * 8) (31, w) := ⟨by simp, by simpa using hc, by simp, by simpa using hc32⟩
  have h8 : FfsInv c (2 * 4) _ := ffsStep_inv 0x0000ffff#32 h16 (by decide)
  have h4 : FfsInv c (2 * 2) _ := ffsStep_inv 0x00ff0000#32 h8 (by decide)
  have h2 : FfsInv c (2 * 1) _ := ffsStep_inv 0x0f000000#32 h4 (by decide)
  have h1 : FfsInv c 1 _ := ffsStep_inv 0x30000000#32 h2 (by decide)
  have hans : acoralFfs w = c := ffsLast_eq h1
  rw [hans]
  exact ⟨hc32, hc⟩

/-! ### The search over several words -/

/-- `acoral_find_first_bit` ends at the lowest set bit of the bitmap,
when one of its words has a set bit. The induction is on the words
left: all words before `off` are empty. -/
theorem findFirstBitFrom_spec (b : Bitmap) (rem off p : Nat) (hp : b.bit p = true)
    (hlo : off * 32 ≤ p) (hhi : p < (off + rem) * 32)
    (hbefore : ∀ i < off * 32, b.bit i = false) :
    b.bit (findFirstBitFrom b rem off) = true ∧
      ∀ i < findFirstBitFrom b rem off, b.bit i = false := by
  induction rem generalizing off with
  | zero => omega
  | succ rem ih =>
      unfold findFirstBitFrom
      split
      · rename_i hne
        obtain ⟨hlt, hbit, hlow⟩ := acoralFfs_spec hne
        constructor
        · unfold Bitmap.bit
          rw [show (acoralFfs (b off) + off * 32) / 32 = off by omega,
            show (acoralFfs (b off) + off * 32) % 32 = acoralFfs (b off) by omega]
          exact hbit
        · intro i hi
          by_cases hio : i < off * 32
          · exact hbefore i hio
          · unfold Bitmap.bit
            rw [show i / 32 = off by omega]
            exact hlow _ (by omega)
      · rename_i hz
        have hempty := (word_eq_zero_iff b off).mp (by simpa using hz)
        have hpo : p / 32 ≠ off := fun he => by simp [hempty p he] at hp
        refine ih (off + 1) (by omega) (by omega) fun i hi => ?_
        by_cases hio : i < off * 32
        · exact hbefore i hio
        · exact hempty i (by omega)

/-- The search from word 0. -/
theorem acoralFindFirstBit_spec (b : Bitmap) (length p : Nat) (hp : b.bit p = true)
    (hhi : p < length * 32) :
    b.bit (acoralFindFirstBit b length) = true ∧
      ∀ i < acoralFindFirstBit b length, b.bit i = false :=
  findFirstBitFrom_spec b length 0 p hp (by omega) (by omega) (by omega)

end ACoral
