import Mathlib.Data.Nat.Find
import Mathlib.Order.Interval.Finset.Nat
import Mathlib.Tactic.Common
import Mathlib.Tactic.Ring

/-!
# `ACoral.Lib.Dyadic`: tilings by dyadic blocks

The block `i` of level `l` is the set of the `x` with `x / 2 ^ l = i`: the
numbers from `i * 2 ^ l` on, `2 ^ l` of them. Two blocks are nested or
disjoint. A `Tiling N n` cuts the numbers below `N` into blocks of the
levels below `n` and marks each block as used or free. It is given by the
level of the block around each number, so that every number is covered
exactly once by construction.

- `setUsed`, `split`, `merge`: the three ways to change a tiling.
- `maximal`: the tiling by blocks that are as large as they can be.
- `free_iff_of_coalesced`: a tiling no two free blocks of which are halves
  of one block is determined, as to its free blocks, by the used numbers.
-/

set_option autoImplicit false

namespace ACoral.Lib

/-! ### Dyadic blocks -/

/-- The block of level `l` around `x` lies below `N`. -/
def Fits (N l x : Nat) : Prop := (x / 2 ^ l + 1) * 2 ^ l ≤ N

instance (N l x : Nat) : Decidable (Fits N l x) := inferInstanceAs (Decidable (_ ≤ _))

/-- The members of a block are an interval. -/
theorem div_two_pow_eq_iff {x l i : Nat} :
    x / 2 ^ l = i ↔ i * 2 ^ l ≤ x ∧ x < (i + 1) * 2 ^ l := by
  have hpos : 0 < 2 ^ l := Nat.two_pow_pos l
  rw [Nat.div_eq_iff hpos]
  have hexp : (i + 1) * 2 ^ l = i * 2 ^ l + 2 ^ l := by ring
  omega

/-- A block starts at its number times its length. -/
@[simp] theorem mul_two_pow_div (i l : Nat) : i * 2 ^ l / 2 ^ l = i :=
  Nat.mul_div_cancel i (Nat.two_pow_pos l)

/-- The block of the next level is that of half the number. -/
theorem div_two_pow_succ (x l : Nat) : x / 2 ^ (l + 1) = x / 2 ^ l / 2 := by
  rw [Nat.pow_succ, Nat.div_div_eq_div_mul]

/-- Numbers in one block are in one block of every higher level. -/
theorem div_two_pow_congr {x y l m : Nat} (hlm : l ≤ m) (h : x / 2 ^ l = y / 2 ^ l) :
    x / 2 ^ m = y / 2 ^ m := by
  obtain ⟨k, rfl⟩ := Nat.exists_eq_add_of_le hlm
  rw [Nat.pow_add, ← Nat.div_div_eq_div_mul, ← Nat.div_div_eq_div_mul, h]

/-- The start of the first half of a block is the start of the block. -/
theorem two_mul_mul_two_pow (i l : Nat) : 2 * i * 2 ^ l = i * 2 ^ (l + 1) := by
  rw [Nat.pow_succ]
  ring

/-- A member of a block that lies below `N` is below `N`. -/
theorem Fits.lt {N l x : Nat} (h : Fits N l x) : x < N :=
  Nat.lt_of_lt_of_le (div_two_pow_eq_iff.mp rfl).2 h

/-- The members of a block lie below `N` together. -/
theorem Fits.congr {N l x y : Nat} (h : Fits N l x) (hxy : y / 2 ^ l = x / 2 ^ l) :
    Fits N l y := by
  unfold Fits
  rwa [hxy]

/-- A block lies below `N` if a block of a higher level around it does. -/
theorem Fits.of_le {N l m x : Nat} (h : Fits N m x) (hlm : l ≤ m) : Fits N l x := by
  -- the last member of the smaller block is a member of the larger one
  have hpos : 0 < 2 ^ l := Nat.two_pow_pos l
  have hexp : (x / 2 ^ l + 1) * 2 ^ l = x / 2 ^ l * 2 ^ l + 2 ^ l := by ring
  have hlast : ((x / 2 ^ l + 1) * 2 ^ l - 1) / 2 ^ l = x / 2 ^ l :=
    div_two_pow_eq_iff.mpr (by omega)
  have hlt := (h.congr (div_two_pow_congr hlm hlast)).lt
  show (x / 2 ^ l + 1) * 2 ^ l ≤ N
  omega

theorem fits_iff {N l x : Nat} : Fits N l x ↔ x / 2 ^ l < N / 2 ^ l :=
  (Nat.le_div_iff_mul_le (Nat.two_pow_pos l)).symm

theorem fits_zero {N x : Nat} : Fits N 0 x ↔ x < N := by
  rw [fits_iff, Nat.pow_zero, Nat.div_one, Nat.div_one]

/-! ### Tilings -/

/-- The numbers below `N`, cut into blocks of the levels below `n`. -/
structure Tiling (N n : Nat) where
  /-- the level of the block around a number -/
  lev : Nat → Nat
  /-- the block around the number is used -/
  used : Nat → Bool
  lev_lt : ∀ x < N, lev x < n
  fits : ∀ x < N, Fits N (lev x) x
  lev_eq : ∀ x < N, ∀ y, y / 2 ^ lev x = x / 2 ^ lev x → lev y = lev x
  used_eq : ∀ x < N, ∀ y, y / 2 ^ lev x = x / 2 ^ lev x → used y = used x

namespace Tiling

variable {N n : Nat} {t : Tiling N n} {l m i j x : Nat}

/-- Block `i` of level `l` is a tile. -/
def IsTile (t : Tiling N n) (l i : Nat) : Prop := i * 2 ^ l < N ∧ t.lev (i * 2 ^ l) = l

/-- Block `i` of level `l` is a free tile. -/
def Free (t : Tiling N n) (l i : Nat) : Prop := t.IsTile l i ∧ t.used (i * 2 ^ l) = false

/-- Every number is in the tile of its level. -/
theorem isTile_of_lt (hx : x < N) : t.IsTile (t.lev x) (x / 2 ^ t.lev x) := by
  have hle : x / 2 ^ t.lev x * 2 ^ t.lev x ≤ x := Nat.div_mul_le_self x _
  exact ⟨by omega, t.lev_eq x hx _ (mul_two_pow_div _ _)⟩

theorem IsTile.lev_eq (h : t.IsTile l i) (hx : x / 2 ^ l = i) : t.lev x = l := by
  have hlev := t.lev_eq _ h.1 x
  rw [h.2, mul_two_pow_div] at hlev
  exact hlev hx

theorem IsTile.used_eq (h : t.IsTile l i) (hx : x / 2 ^ l = i) :
    t.used x = t.used (i * 2 ^ l) := by
  have hused := t.used_eq _ h.1 x
  rw [h.2, mul_two_pow_div] at hused
  exact hused hx

theorem IsTile.fits (h : t.IsTile l i) : (i + 1) * 2 ^ l ≤ N := by
  have hfits := t.fits _ h.1
  rw [h.2] at hfits
  unfold Fits at hfits
  rwa [mul_two_pow_div] at hfits

theorem IsTile.lt (h : t.IsTile l i) (hx : x / 2 ^ l = i) : x < N :=
  Nat.lt_of_lt_of_le (div_two_pow_eq_iff.mp hx).2 h.fits

theorem IsTile.level_lt (h : t.IsTile l i) : l < n := by
  have hlt := t.lev_lt _ h.1
  rwa [h.2] at hlt

/-- Two tiles with a common member are one. -/
theorem IsTile.unique (h : t.IsTile l i) (h' : t.IsTile m j) (hx : x / 2 ^ l = i)
    (hx' : x / 2 ^ m = j) : l = m ∧ i = j := by
  have hlm : l = m := (h.lev_eq hx).symm.trans (h'.lev_eq hx')
  subst hlm
  exact ⟨rfl, hx.symm.trans hx'⟩

/-- A member of a tile is in the same tile as its neighbours there. -/
theorem IsTile.mem_iff (h : t.IsTile l i) (hx : x < N) {y : Nat}
    (hy : y / 2 ^ t.lev x = x / 2 ^ t.lev x) : y / 2 ^ l = i ↔ x / 2 ^ l = i := by
  constructor
  · intro hyl
    have hlev : t.lev x = l := (t.lev_eq x hx y hy).symm.trans (h.lev_eq hyl)
    rw [hlev] at hy
    exact hy.symm.trans hyl
  · intro hxl
    rw [h.lev_eq hxl] at hy
    exact hy.trans hxl

/-! ### The changes of a tiling -/

/-- The tile `i` of level `l` becomes used or free. -/
def setUsed (t : Tiling N n) (u : Bool) (h : t.IsTile l i) : Tiling N n where
  lev := t.lev
  used := fun x => if x / 2 ^ l = i then u else t.used x
  lev_lt := t.lev_lt
  fits := t.fits
  lev_eq := t.lev_eq
  used_eq := fun x hx y hy => by
    simp only [h.mem_iff hx hy, t.used_eq x hx y hy]

/-- The tile `i` of level `l + 1` is cut into its halves. -/
def split (t : Tiling N n) (h : t.IsTile (l + 1) i) : Tiling N n where
  lev := fun x => if x / 2 ^ (l + 1) = i then l else t.lev x
  used := t.used
  lev_lt := fun x hx => by
    have hlt := h.level_lt
    have hlev := t.lev_lt x hx
    split <;> omega
  fits := fun x hx => by
    split
    · rename_i hmem
      have hfits := t.fits x hx
      rw [h.lev_eq hmem] at hfits
      exact hfits.of_le (Nat.le_succ l)
    · exact t.fits x hx
  lev_eq := fun x hx y hy => by
    split at hy
    · rename_i hmem
      rw [if_pos hmem, if_pos ((div_two_pow_congr (Nat.le_succ l) hy).trans hmem)]
    · rename_i hmem
      rw [if_neg hmem, if_neg fun hy' => hmem ((h.mem_iff hx hy).mp hy'), t.lev_eq x hx y hy]
  used_eq := fun x hx y hy => by
    split at hy
    · rename_i hmem
      rw [h.used_eq hmem, h.used_eq ((div_two_pow_congr (Nat.le_succ l) hy).trans hmem)]
    · exact t.used_eq x hx y hy

/-- The members of the first half and of the second half of a block. -/
theorem halves (x l i : Nat) :
    x / 2 ^ (l + 1) = i ↔ x / 2 ^ l = 2 * i ∨ x / 2 ^ l = 2 * i + 1 := by
  rw [div_two_pow_succ]
  omega

/-- The two halves of block `i` of level `l + 1`, tiles that are both used
or both free, become one tile. -/
def merge (t : Tiling N n) (h₀ : t.IsTile l (2 * i)) (h₁ : t.IsTile l (2 * i + 1))
    (hused : t.used (2 * i * 2 ^ l) = t.used ((2 * i + 1) * 2 ^ l)) (hn : l + 1 < n) :
    Tiling N n where
  lev := fun x => if x / 2 ^ (l + 1) = i then l + 1 else t.lev x
  used := t.used
  lev_lt := fun x hx => by
    have hlev := t.lev_lt x hx
    split <;> omega
  fits := fun x hx => by
    split
    · rename_i hmem
      show (x / 2 ^ (l + 1) + 1) * 2 ^ (l + 1) ≤ N
      have hexp : (i + 1) * 2 ^ (l + 1) = (2 * i + 1 + 1) * 2 ^ l := by
        rw [Nat.pow_succ]
        ring
      rw [hmem, hexp]
      exact h₁.fits
    · exact t.fits x hx
  lev_eq := fun x hx y hy => by
    split at hy
    · rename_i hmem
      rw [if_pos hmem, if_pos (hy.trans hmem)]
    · rename_i hmem
      rw [halves, ← h₀.mem_iff hx hy, ← h₁.mem_iff hx hy, ← halves] at hmem
      rw [if_neg hmem, t.lev_eq x hx y hy, if_neg]
      rwa [halves, ← h₀.mem_iff hx hy, ← h₁.mem_iff hx hy, ← halves]
  used_eq := fun x hx y hy => by
    split at hy
    · rename_i hmem
      have huse : ∀ z, z / 2 ^ (l + 1) = i → t.used z = t.used (2 * i * 2 ^ l) := fun z hz =>
        ((halves z l i).mp hz).elim (fun h => h₀.used_eq h)
          fun h => (h₁.used_eq h).trans hused.symm
      rw [huse x hmem, huse y (hy.trans hmem)]
    · exact t.used_eq x hx y hy

theorem free_setUsed_self {u : Bool} (h : t.IsTile l i) :
    (t.setUsed u h).Free l i ↔ u = false := by
  show t.IsTile l i ∧ (if i * 2 ^ l / 2 ^ l = i then u else _) = false ↔ _
  rw [if_pos (mul_two_pow_div i l)]
  exact and_iff_right h

theorem free_setUsed_of_ne {u : Bool} (h : t.IsTile l i) (hne : ¬ (m = l ∧ j = i)) :
    (t.setUsed u h).Free m j ↔ t.Free m j := by
  refine and_congr_right fun hm : t.IsTile m j => ?_
  have hout : ¬ j * 2 ^ m / 2 ^ l = i := fun hmem =>
    hne (hm.unique h (mul_two_pow_div j m) hmem)
  show (if j * 2 ^ m / 2 ^ l = i then u else t.used (j * 2 ^ m)) = false ↔ _
  rw [if_neg hout]

/-- A tile that becomes used is no longer free. -/
theorem free_setUsed_true (h : t.IsTile l i) :
    (t.setUsed true h).Free m j ↔ t.Free m j ∧ ¬ (m = l ∧ j = i) := by
  by_cases heq : m = l ∧ j = i
  · obtain ⟨rfl, rfl⟩ := heq
    simp [free_setUsed_self h]
  · rw [free_setUsed_of_ne h heq]
    exact (and_iff_left heq).symm

/-- A tile that is released is free, as are the others that were. -/
theorem free_setUsed_false (h : t.IsTile l i) :
    (t.setUsed false h).Free m j ↔ t.Free m j ∨ m = l ∧ j = i := by
  by_cases heq : m = l ∧ j = i
  · obtain ⟨rfl, rfl⟩ := heq
    simp [free_setUsed_self h]
  · rw [free_setUsed_of_ne h heq]
    exact (or_iff_left heq).symm

/-- A change of used tiles leaves the free ones alone. -/
theorem free_congr {t' : Tiling N n} (hused : t'.used = t.used)
    (hlev : ∀ x, t.used x = false → t'.lev x = t.lev x) : t'.Free m j ↔ t.Free m j := by
  unfold Free IsTile
  rw [hused]
  constructor
  · rintro ⟨⟨hN, hl⟩, hu⟩
    exact ⟨⟨hN, (hlev _ hu).symm.trans hl⟩, hu⟩
  · rintro ⟨⟨hN, hl⟩, hu⟩
    exact ⟨⟨hN, (hlev _ hu).trans hl⟩, hu⟩

theorem isTile_split_left (h : t.IsTile (l + 1) i) : (t.split h).IsTile l (2 * i) := by
  have hmem : 2 * i * 2 ^ l / 2 ^ (l + 1) = i := (halves _ l i).mpr (Or.inl (mul_two_pow_div _ _))
  exact ⟨h.lt hmem, if_pos hmem⟩

theorem isTile_split_right (h : t.IsTile (l + 1) i) : (t.split h).IsTile l (2 * i + 1) := by
  have hmem : (2 * i + 1) * 2 ^ l / 2 ^ (l + 1) = i :=
    (halves _ l i).mpr (Or.inr (mul_two_pow_div _ _))
  exact ⟨h.lt hmem, if_pos hmem⟩

theorem free_split (h : t.IsTile (l + 1) i) (hused : t.used (i * 2 ^ (l + 1)) = true) :
    (t.split h).Free m j ↔ t.Free m j := by
  refine free_congr rfl fun x hx => if_neg fun hmem => ?_
  rw [h.used_eq hmem, hused] at hx
  exact absurd hx (by decide)

theorem isTile_merge (h₀ : t.IsTile l (2 * i)) (h₁ : t.IsTile l (2 * i + 1))
    (hused : t.used (2 * i * 2 ^ l) = t.used ((2 * i + 1) * 2 ^ l)) (hn : l + 1 < n) :
    (t.merge h₀ h₁ hused hn).IsTile (l + 1) i := by
  refine ⟨?_, if_pos (mul_two_pow_div i (l + 1))⟩
  rw [← two_mul_mul_two_pow]
  exact h₀.1

theorem free_merge (h₀ : t.IsTile l (2 * i)) (h₁ : t.IsTile l (2 * i + 1))
    (hu₀ : t.used (2 * i * 2 ^ l) = true) (hu₁ : t.used ((2 * i + 1) * 2 ^ l) = true)
    (hn : l + 1 < n) :
    (t.merge h₀ h₁ (hu₀.trans hu₁.symm) hn).Free m j ↔ t.Free m j := by
  refine free_congr rfl fun x hx => if_neg fun hmem => ?_
  rcases (halves x l i).mp hmem with h | h
  · rw [h₀.used_eq h, hu₀] at hx
    exact absurd hx (by decide)
  · rw [h₁.used_eq h, hu₁] at hx
    exact absurd hx (by decide)

/-! ### Taking and releasing a tile -/

/-- From `t` to `t'` the block `i` of level `l`, which was free, became a
used tile. Used tiles stay as they are; the free ones may be cut. -/
structure Taken (t t' : Tiling N n) (l i : Nat) : Prop where
  tile : t'.IsTile l i
  used : ∀ x, t'.used x = (t.used x || decide (x / 2 ^ l = i))
  free : ∀ x, x / 2 ^ l = i → t.used x = false
  lev : ∀ x, t.used x = true → t'.lev x = t.lev x

/-- From `t` to `t'` the members of the block `i` of level `l` became free.
The other used tiles stay as they are. -/
structure Released (t t' : Tiling N n) (l i : Nat) : Prop where
  used : ∀ x, t'.used x = (t.used x && !decide (x / 2 ^ l = i))
  lev : ∀ x, t'.used x = true → t'.lev x = t.lev x

theorem taken_setUsed (h : t.Free l i) : Taken t (t.setUsed true h.1) l i where
  tile := h.1
  used := fun x => by
    show (if x / 2 ^ l = i then true else t.used x) = _
    split <;> simp [*]
  free := fun x hx => (h.1.used_eq hx).trans h.2
  lev := fun _ _ => rfl

/-- The first half of a tile that was taken is kept, and the second half is
free again. -/
theorem Taken.split {t' : Tiling N n} (h : Taken t t' (l + 1) i) :
    Taken t ((t'.split h.tile).setUsed false (isTile_split_right h.tile)) l (2 * i) where
  tile := isTile_split_left h.tile
  used := fun x => by
    show (if x / 2 ^ l = 2 * i + 1 then false else t'.used x) = _
    have hfree := h.free x
    rw [halves] at hfree
    split
    · rename_i hx
      rw [hfree (Or.inr hx), hx]
      simp
    · rename_i hx
      rw [h.used, decide_eq_decide.mpr ((halves x l i).trans (or_iff_left hx))]
  free := fun x hx => h.free x ((halves x l i).mpr (Or.inl hx))
  lev := fun x hx => by
    have hout : ¬ x / 2 ^ (l + 1) = i := fun hmem => by
      rw [h.free x hmem] at hx
      exact absurd hx (by decide)
    show (if x / 2 ^ (l + 1) = i then l else t'.lev x) = _
    rw [if_neg hout, h.lev x hx]

theorem Taken.used_self {t' : Tiling N n} (h : Taken t t' l i) : t'.used (i * 2 ^ l) = true := by
  rw [h.used, mul_two_pow_div, decide_eq_true rfl, Bool.or_true]

/-- The second half of the tile that is cut is the only new free tile. -/
theorem Taken.free_split {t' : Tiling N n} (h : Taken t t' (l + 1) i) :
    ((t'.split h.tile).setUsed false (isTile_split_right h.tile)).Free m j ↔
      t'.Free m j ∨ m = l ∧ j = 2 * i + 1 := by
  rw [free_setUsed_false, Tiling.free_split _ h.used_self]

/-- A second half that is free in `t'` and was not in `t` belongs to a block
that starts where the block `i` of level `l` does. -/
def CutAtStart (t t' : Tiling N n) (l i : Nat) : Prop :=
  ∀ m j, t'.Free m (2 * j + 1) → t.Free m (2 * j + 1) ∨ 2 * j * 2 ^ m = i * 2 ^ l

theorem cutAtStart_setUsed (h : t.Free l i) : CutAtStart t (t.setUsed true h.1) l i :=
  fun _ _ hfree => Or.inl ((free_setUsed_true h.1).mp hfree).1

theorem CutAtStart.split {t' : Tiling N n} (h : CutAtStart t t' (l + 1) i)
    (htaken : Taken t t' (l + 1) i) :
    CutAtStart t ((t'.split htaken.tile).setUsed false (isTile_split_right htaken.tile)) l
      (2 * i) := by
  intro m j hfree
  rw [two_mul_mul_two_pow i l]
  rcases htaken.free_split.mp hfree with hfree | ⟨rfl, hj⟩
  · exact h m j hfree
  · right
    rw [show j = i by omega, two_mul_mul_two_pow]

theorem Taken.keep {t' : Tiling N n} (h : Taken t t' l i) (hm : t.IsTile m j)
    (hu : t.used (j * 2 ^ m) = true) : t'.IsTile m j ∧ t'.used (j * 2 ^ m) = true := by
  refine ⟨⟨hm.1, (h.lev _ hu).trans hm.2⟩, ?_⟩
  rw [h.used, hu, Bool.true_or]

theorem Taken.used_tile {t' : Tiling N n} (h : Taken t t' l i) (hm : t'.IsTile m j)
    (hu : t'.used (j * 2 ^ m) = true) :
    m = l ∧ j = i ∨ t.IsTile m j ∧ t.used (j * 2 ^ m) = true := by
  rw [h.used, Bool.or_eq_true, decide_eq_true_iff] at hu
  rcases hu with hu | hu
  · exact Or.inr ⟨⟨hm.1, (h.lev _ hu).symm.trans hm.2⟩, hu⟩
  · exact Or.inl (hm.unique h.tile (mul_two_pow_div j m) hu)

theorem released_setUsed (h : t.IsTile l i) : Released t (t.setUsed false h) l i where
  used := fun x => by
    show (if x / 2 ^ l = i then false else t.used x) = _
    split <;> simp [*]
  lev := fun _ _ => rfl

/-- Releasing a tile together with the free other half of its pair releases
no other used tile. -/
theorem Released.of_merge {t₁ t' : Tiling N n} {c : Nat} (h : Released t₁ t' (l + 1) (i / 2))
    (hc : c / 2 = i / 2) (hci : c ≠ i) (hcfree : ∀ x, x / 2 ^ l = c → t.used x = false)
    (hused : ∀ x, x / 2 ^ l ≠ c → t₁.used x = t.used x)
    (hlev : ∀ x, x / 2 ^ (l + 1) ≠ i / 2 → t₁.lev x = t.lev x) : Released t t' l i := by
  have hmem : ∀ x, x / 2 ^ (l + 1) = i / 2 ↔ x / 2 ^ l = i ∨ x / 2 ^ l = c := fun x => by
    rw [div_two_pow_succ]
    omega
  refine ⟨fun x => ?_, fun x hx => ?_⟩
  · rw [h.used]
    by_cases hx : x / 2 ^ l = c
    · rw [decide_eq_true ((hmem x).mpr (Or.inr hx)), hcfree x hx, Bool.not_true, Bool.and_false,
        Bool.false_and]
    · rw [hused x hx, decide_eq_decide.mpr ((hmem x).trans (or_iff_left hx))]
  · have hout : ¬ x / 2 ^ (l + 1) = i / 2 := fun hm => by
      rw [h.used, decide_eq_true hm, Bool.not_true, Bool.and_false] at hx
      exact absurd hx (by decide)
    exact (h.lev x hx).trans (hlev x hout)

theorem Released.keep {t' : Tiling N n} (h : Released t t' l i) (hm : t.IsTile m j)
    (hu : t.used (j * 2 ^ m) = true) (hne : ¬ j * 2 ^ m / 2 ^ l = i) :
    t'.IsTile m j ∧ t'.used (j * 2 ^ m) = true := by
  have hu' : t'.used (j * 2 ^ m) = true := by rw [h.used, hu, decide_eq_false hne]; rfl
  exact ⟨⟨hm.1, (h.lev _ hu').trans hm.2⟩, hu'⟩

theorem Released.used_tile {t' : Tiling N n} (h : Released t t' l i) (hm : t'.IsTile m j)
    (hu : t'.used (j * 2 ^ m) = true) :
    t.IsTile m j ∧ t.used (j * 2 ^ m) = true ∧ ¬ j * 2 ^ m / 2 ^ l = i := by
  have hlev := h.lev _ hu
  rw [h.used, Bool.and_eq_true, Bool.not_eq_true', decide_eq_false_iff_not] at hu
  exact ⟨⟨hm.1, hlev.symm.trans hm.2⟩, hu⟩

/-! ### Coalesced tilings -/

/-- No two free tiles are the halves of a block. -/
def Coalesced (t : Tiling N n) : Prop :=
  ∀ l i, l + 1 < n → ¬ (t.Free l (2 * i) ∧ t.Free l (2 * i + 1))

/-- The level of the largest block around `x` below `N`. -/
def maxLevel (N n x : Nat) : Nat := Nat.findGreatest (fun l => Fits N l x) (n - 1)

theorem maxLevel_eq_iff {k : Nat} (hx : x < N) :
    maxLevel N n x = k ↔ k ≤ n - 1 ∧ Fits N k x ∧ ∀ m, k < m → m ≤ n - 1 → ¬ Fits N m x := by
  unfold maxLevel
  rw [Nat.findGreatest_eq_iff]
  refine and_congr_right fun _ => and_congr_left fun _ => ?_
  constructor
  · intro h
    by_cases hk : k = 0
    · exact hk ▸ fits_zero.mpr hx
    · exact h hk
  · exact fun h _ => h

/-- The tiling by the largest blocks, all of them free. -/
def maximal (N n : Nat) (hn : 0 < n) : Tiling N n where
  lev := maxLevel N n
  used := fun _ => false
  lev_lt := fun x hx => by
    have hle := ((maxLevel_eq_iff hx).mp rfl : maxLevel N n x ≤ n - 1 ∧ _).1
    omega
  fits := fun x hx => ((maxLevel_eq_iff hx).mp rfl).2.1
  lev_eq := fun x hx y hy => by
    obtain ⟨hle, hfits, hmax⟩ := (maxLevel_eq_iff (n := n) hx).mp rfl
    have hfy := hfits.congr hy
    refine (maxLevel_eq_iff hfy.lt).mpr ⟨hle, hfy, fun m hm hmn hm' => ?_⟩
    exact hmax m hm hmn (hm'.congr (div_two_pow_congr (Nat.le_of_lt hm) hy.symm))
  used_eq := fun _ _ _ _ => rfl

/-- In a coalesced tiling no tile lies in a larger free block. The
induction is on the level: the tile at the start of the other half is a
larger one, which meets this tile, or the same size, which is excluded, or
a smaller one, which could not be larger either. -/
theorem not_fits_of_coalesced (hc : t.Coalesced) (hx : x < N) (hn : t.lev x + 1 < n)
    (hfree : ∀ y, y / 2 ^ (t.lev x + 1) = x / 2 ^ (t.lev x + 1) → t.used y = false) :
    ¬ Fits N (t.lev x + 1) x := by
  induction hl : t.lev x using Nat.strong_induction_on generalizing x with
  | _ l ih =>
      intro hfits
      rw [hl] at hn hfree
      have htile : t.IsTile l (x / 2 ^ l) := hl ▸ isTile_of_lt hx
      have hparent : ∀ y, y / 2 ^ l / 2 = x / 2 ^ l / 2 → y / 2 ^ (l + 1) = x / 2 ^ (l + 1) :=
        fun y hy => by rw [div_two_pow_succ, div_two_pow_succ, hy]
      -- the start of the other half
      obtain ⟨c, hc2, hne⟩ : ∃ c, c / 2 = x / 2 ^ l / 2 ∧ c ≠ x / 2 ^ l := by
        generalize x / 2 ^ l = q
        exact ⟨q / 2 * 2 + (1 - q % 2), by omega, by omega⟩
      have hcx : c * 2 ^ l / 2 ^ (l + 1) = x / 2 ^ (l + 1) :=
        hparent _ (by rw [mul_two_pow_div, hc2])
      have hyfits : Fits N (l + 1) (c * 2 ^ l) := hfits.congr hcx
      have hy : c * 2 ^ l < N := hyfits.lt
      rcases Nat.lt_trichotomy (t.lev (c * 2 ^ l)) l with hlt | heq | hgt
      · refine ih _ hlt hy (by omega) (fun y hyc => ?_) rfl (hyfits.of_le (by omega))
        exact hfree y ((div_two_pow_congr (by omega) hyc).trans hcx)
      · have hother : t.IsTile l c := ⟨hy, heq⟩
        have hfx : t.Free l (x / 2 ^ l) :=
          ⟨htile, hfree _ (hparent _ (by rw [mul_two_pow_div]))⟩
        have hfc : t.Free l c := ⟨hother, hfree _ hcx⟩
        rcases Nat.mod_two_eq_zero_or_one c with h | h
        · refine hc l (c / 2) hn ⟨?_, ?_⟩
          · rwa [show 2 * (c / 2) = c by omega]
          · rwa [show 2 * (c / 2) + 1 = x / 2 ^ l by omega]
        · refine hc l (c / 2) hn ⟨?_, ?_⟩
          · rwa [show 2 * (c / 2) = x / 2 ^ l by omega]
          · rwa [show 2 * (c / 2) + 1 = c by omega]
      · -- the larger tile contains `x`
        have hlarge := (isTile_of_lt (t := t) hy).lev_eq (div_two_pow_congr hgt hcx.symm)
        omega

/-- A free tile of a tiling lies in one tile of every coalesced tiling with
the same used numbers. -/
theorem le_lev_of_free {t' : Tiling N n} {m j : Nat} (hc : t.Coalesced)
    (hused : ∀ x < N, t'.used x = t.used x) (hfree : t'.Free m j) (hx : x / 2 ^ m = j) :
    m ≤ t.lev x := by
  by_contra hlt
  rw [Nat.not_le] at hlt
  have hm := hfree.1.level_lt
  have hfits : Fits N m x := by
    unfold Fits
    rw [hx]
    exact hfree.1.fits
  refine not_fits_of_coalesced hc (hfree.1.lt hx) (by omega) (fun y hy => ?_)
    (hfits.of_le (by omega))
  -- the parent of the smaller tile lies in the free one
  have hyj : y / 2 ^ m = j := (div_two_pow_congr (by omega) hy).trans hx
  rw [← hused y (hfree.1.lt hyj), hfree.1.used_eq hyj, hfree.2]

/-- Coalesced tilings with the same used numbers have the same free
tiles. -/
theorem free_iff_of_coalesced {t' : Tiling N n} (hc : t.Coalesced) (hc' : t'.Coalesced)
    (hused : ∀ x < N, t'.used x = t.used x) : t'.Free l i ↔ t.Free l i := by
  have hlev : ∀ x, x / 2 ^ l = i → x < N → t.used x = false → t'.lev x = t.lev x :=
    fun x hx hN hu => by
      have hu' := (hused x hN).trans hu
      have hf := isTile_of_lt (t := t) hN
      have hf' := isTile_of_lt (t := t') hN
      refine Nat.le_antisymm ?_ ?_
      · refine le_lev_of_free hc hused ⟨hf', ?_⟩ rfl
        rw [← hf'.used_eq rfl, hu']
      · refine le_lev_of_free hc' (fun x hx => (hused x hx).symm) ⟨hf, ?_⟩ rfl
        rw [← hf.used_eq rfl, hu]
  have hstart : i * 2 ^ l / 2 ^ l = i := mul_two_pow_div i l
  constructor
  · rintro ⟨⟨hN, hl⟩, hu⟩
    rw [hused _ hN] at hu
    exact ⟨⟨hN, (hlev _ hstart hN hu).symm.trans hl⟩, hu⟩
  · rintro ⟨⟨hN, hl⟩, hu⟩
    exact ⟨⟨hN, (hlev _ hstart hN hu).trans hl⟩, (hused _ hN).trans hu⟩

/-- The free tiles of the highest level of the maximal tiling. -/
theorem free_maximal_top {k : Nat} (hk : 0 < k + 1) :
    (maximal N (k + 1) hk).Free k i ↔ i < N / 2 ^ k := by
  have hfits : Fits N k (i * 2 ^ k) ↔ i < N / 2 ^ k := by rw [fits_iff, mul_two_pow_div]
  rw [← hfits]
  constructor
  · rintro ⟨⟨hN, hlev⟩, -⟩
    exact ((maxLevel_eq_iff hN).mp hlev).2.1
  · intro h
    refine ⟨⟨h.lt, (maxLevel_eq_iff h.lt).mpr ⟨by omega, h, fun m hm hm' => by omega⟩⟩, rfl⟩

/-- Below the highest level the maximal tiling has a free tile for each
binary digit 1 of `N`, and it is the first half of its pair. -/
theorem free_maximal {k : Nat} (hk : 0 < k + 1) (hl : l < k) :
    (maximal N (k + 1) hk).Free l i ↔ N / 2 ^ l = i + 1 ∧ i % 2 = 0 := by
  have hfits : Fits N l (i * 2 ^ l) ↔ i < N / 2 ^ l := by rw [fits_iff, mul_two_pow_div]
  have hnext : Fits N (l + 1) (i * 2 ^ l) ↔ i / 2 < N / 2 ^ l / 2 := by
    rw [fits_iff, div_two_pow_succ, div_two_pow_succ, mul_two_pow_div]
  have hdigit : N / 2 ^ l = i + 1 ∧ i % 2 = 0 ↔ i < N / 2 ^ l ∧ ¬ i / 2 < N / 2 ^ l / 2 := by
    omega
  rw [hdigit, ← hfits, ← hnext]
  constructor
  · rintro ⟨⟨hN, hlev⟩, -⟩
    obtain ⟨-, hf, hmax⟩ := (maxLevel_eq_iff hN).mp hlev
    exact ⟨hf, hmax (l + 1) (by omega) (by omega)⟩
  · rintro ⟨hf, hmax⟩
    refine ⟨⟨hf.lt, (maxLevel_eq_iff hf.lt).mpr ⟨by omega, hf, fun m hm hm' hfm => ?_⟩⟩, rfl⟩
    exact hmax (hfm.of_le hm)

theorem coalesced_maximal (hn : 0 < n) : (maximal N n hn).Coalesced := by
  obtain ⟨k, rfl⟩ := Nat.exists_eq_add_of_le' hn
  rintro l i hl ⟨-, hodd⟩
  have hmod := ((free_maximal hn (by omega)).mp hodd).2
  omega

/-! ### Counting -/

/-- How many numbers below `N` are not used. -/
def freeCount (N : Nat) (used : Nat → Bool) : Nat :=
  ((Finset.range N).filter fun x => used x = false).card

theorem freeCount_le (N : Nat) (used : Nat → Bool) : freeCount N used ≤ N := by
  unfold freeCount
  exact (Finset.card_filter_le _ _).trans (Finset.card_range N).le

theorem freeCount_false {used : Nat → Bool} (h : ∀ x < N, used x = false) :
    freeCount N used = N := by
  unfold freeCount
  rw [Finset.filter_true_of_mem fun x hx => h x (Finset.mem_range.mp hx), Finset.card_range]

/-- A block has as many members as its length. -/
theorem card_block (hfit : (i + 1) * 2 ^ l ≤ N) :
    ((Finset.range N).filter fun x => x / 2 ^ l = i).card = 2 ^ l := by
  have heq : ((Finset.range N).filter fun x => x / 2 ^ l = i) =
      Finset.Ico (i * 2 ^ l) ((i + 1) * 2 ^ l) := by
    ext x
    rw [Finset.mem_filter, Finset.mem_range, Finset.mem_Ico, div_two_pow_eq_iff]
    omega
  rw [heq, Nat.card_Ico, ← Nat.sub_mul, Nat.add_sub_cancel_left, Nat.one_mul]

/-- A free block that becomes used takes its length off the count. -/
theorem freeCount_add {used used' : Nat → Bool} (hfit : (i + 1) * 2 ^ l ≤ N)
    (hin : ∀ x, x / 2 ^ l = i → used x = false)
    (hused : ∀ x < N, used' x = (used x || decide (x / 2 ^ l = i))) :
    freeCount N used' + 2 ^ l = freeCount N used := by
  have hsplit := Finset.card_filter_add_card_filter_not
    (s := (Finset.range N).filter fun x => used x = false) fun x => x / 2 ^ l = i
  rw [Finset.filter_filter, Finset.filter_filter] at hsplit
  have hblock : ((Finset.range N).filter fun x => used x = false ∧ x / 2 ^ l = i) =
      (Finset.range N).filter fun x => x / 2 ^ l = i :=
    Finset.filter_congr fun x _ => and_iff_right_of_imp (hin x)
  have hrest : ((Finset.range N).filter fun x => used x = false ∧ ¬ x / 2 ^ l = i) =
      (Finset.range N).filter fun x => used' x = false := by
    refine Finset.filter_congr fun x hx => ?_
    rw [hused x (Finset.mem_range.mp hx), Bool.or_eq_false_iff, decide_eq_false_iff_not]
  rw [hblock, hrest, card_block hfit] at hsplit
  unfold freeCount
  omega

end Tiling

end ACoral.Lib
