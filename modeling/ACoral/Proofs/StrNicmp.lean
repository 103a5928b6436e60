import ACoral.Kernel.Str
import Mathlib.Data.List.Zip

/-!
# `ACoral.Proofs.StrNicmp`: what `acoral_str_nicmp` compares

`acoral_str_nicmp` is to compare two strings up to a limit, with the upper-case letters read
as lower-case ones (`AgreeNoCase`). `acoral_tolower` answers 0 for every character that is
not a letter. So two symbols that differ are both mapped to 0, and the loop goes on behind
them as if they were equal.

`paired` is the list of the pairs of characters at equal positions, up to the first 0 of the
two strings and up to the limit. The loop ends at the first pair that `tells` the strings
apart: they differ, and one of the two is a letter or the 0 (`acoralStrNicmp_eq_zero_iff`).
The result is the right one unless the strings differ in symbols only
(`acoralStrNicmp_agree_iff`).
-/

set_option autoImplicit false

namespace ACoral

variable {buf buf1 buf2 s s1 s2 rest1 rest2 : List UInt8} {c c1 c2 : UInt8} {len : Nat}

/-! ### What the function is for -/

/-- A character as it is to be compared: an upper-case letter counts as its lower-case one. -/
def foldCase (c : UInt8) : UInt8 := if IS_UPPER c then c + 32 else c

/-- The strings agree within the first `len` characters, in whatever case. -/
def AgreeNoCase (s1 s2 : List UInt8) (len : Nat) : Prop :=
  (s1.map foldCase).take len = (s2.map foldCase).take len

/-- A character of a string that is not a letter. -/
def isSymbol (c : UInt8) : Bool := decide (c ≠ 0) && !IS_LOWER c && !IS_UPPER c

/-- The pairs of characters at equal positions, up to the end of the shorter string and up to
the limit. The 0 at the end of a string counts as a character. -/
def paired (s1 s2 : List UInt8) (len : Nat) : List (UInt8 × UInt8) :=
  ((s1 ++ [0]).zip (s2 ++ [0])).take len

/-- The strings do not agree, but wherever they differ there are two symbols. -/
def OnlySymbolsDiffer (s1 s2 : List UInt8) (len : Nat) : Prop :=
  ¬ AgreeNoCase s1 s2 len ∧
    ∀ p ∈ paired s1 s2 len, foldCase p.1 ≠ foldCase p.2 →
      isSymbol p.1 = true ∧ isSymbol p.2 = true

/-! ### One character -/

/-- The two characters differ in whatever case, and one of them is a letter or 0. -/
def Tells (c1 c2 : UInt8) : Prop :=
  foldCase c1 ≠ foldCase c2 ∧ ¬ (isSymbol c1 = true ∧ isSymbol c2 = true)

theorem isSymbol_iff :
    isSymbol c = true ↔ c ≠ 0 ∧ IS_LOWER c = false ∧ IS_UPPER c = false := by
  simp [isSymbol, and_assoc]

/-- A letter is mapped to a lower-case letter. -/
theorem foldCase_letter (h : c ≠ 0) (hsym : ¬ isSymbol c = true) :
    acoralTolower c = foldCase c ∧ IS_LOWER (foldCase c) = true := by
  have hletter : IS_LOWER c = true ∨ IS_UPPER c = true := by
    by_contra hnone
    rw [not_or, Bool.not_eq_true, Bool.not_eq_true] at hnone
    exact hsym (isSymbol_iff.mpr ⟨h, hnone⟩)
  by_cases hup : IS_UPPER c = true
  · have hlow : ¬ IS_LOWER c = true := by
      rw [IS_LOWER_iff]
      rw [IS_UPPER_iff] at hup
      omega
    have hmoved : IS_LOWER (c + 32) = true := by
      rw [IS_UPPER_iff] at hup
      rw [IS_LOWER_iff, UInt8.toNat_add, show (32 : UInt8).toNat = 32 from rfl]
      omega
    simpa [acoralTolower, foldCase, hup, hlow] using hmoved
  · have hlow : IS_LOWER c = true := hletter.resolve_right hup
    simp [acoralTolower, foldCase, hup, hlow]

theorem acoralTolower_symbol (h : isSymbol c = true) : acoralTolower c = 0 := by
  simp [acoralTolower, isSymbol_iff.mp h]

theorem foldCase_symbol (h : isSymbol c = true) : foldCase c = c := by
  simp [foldCase, isSymbol_iff.mp h]

/-- Only the 0 is mapped to 0. -/
theorem foldCase_ne_zero (h : c ≠ 0) : foldCase c ≠ 0 := by
  by_cases hsym : isSymbol c = true
  · rwa [foldCase_symbol hsym]
  · intro hzero
    have hlow := (foldCase_letter h hsym).2
    rw [hzero] at hlow
    exact absurd hlow (by decide)

/-- A symbol is not mapped to the same character as a letter. -/
theorem foldCase_ne_of_symbol (h1 : isSymbol c1 = true) (h2 : c2 ≠ 0)
    (hsym : ¬ isSymbol c2 = true) : foldCase c1 ≠ foldCase c2 := by
  intro heq
  rw [foldCase_symbol h1] at heq
  have hlow := (foldCase_letter h2 hsym).2
  rw [← heq, (isSymbol_iff.mp h1).2.1] at hlow
  exact absurd hlow (by decide)

/-- Two characters that differ after `acoral_tolower` tell the strings apart, and no others
do. -/
theorem acoralTolower_ne_iff (h1 : c1 ≠ 0) (h2 : c2 ≠ 0) :
    acoralTolower c1 ≠ acoralTolower c2 ↔ Tells c1 c2 := by
  have hlow : ∀ {c : UInt8}, IS_LOWER c = true → c ≠ 0 := by
    intro c hc hzero
    rw [hzero] at hc
    exact absurd hc (by decide)
  unfold Tells
  by_cases hs1 : isSymbol c1 = true <;> by_cases hs2 : isSymbol c2 = true
  · simp [acoralTolower_symbol hs1, acoralTolower_symbol hs2, hs1, hs2]
  · have hletter := foldCase_letter h2 hs2
    have hne := foldCase_ne_of_symbol hs1 h2 hs2
    simp [acoralTolower_symbol hs1, hletter.1, hs2, hne, (hlow hletter.2).symm]
  · have hletter := foldCase_letter h1 hs1
    have hne := (foldCase_ne_of_symbol hs2 h1 hs1).symm
    simp [acoralTolower_symbol hs2, hletter.1, hs1, hne, hlow hletter.2]
  · simp [(foldCase_letter h1 hs1).1, (foldCase_letter h2 hs2).1, hs1]

/-! ### The pairs of characters -/

theorem paired_cons :
    paired (c1 :: s1) (c2 :: s2) (len + 1) = (c1, c2) :: paired s1 s2 len := rfl

theorem paired_nil_nil : paired [] [] (len + 1) = [(0, 0)] := by simp [paired]

theorem paired_nil_cons : paired [] (c2 :: s2) (len + 1) = [(0, c2)] := by simp [paired]

theorem paired_cons_nil : paired (c1 :: s1) [] (len + 1) = [(c1, 0)] := by simp [paired]

/-- The 0 of one string tells it from a longer one. -/
theorem tells_zero (h : c ≠ 0) : Tells 0 c ∧ Tells c 0 := by
  have hzero : foldCase 0 = 0 := by decide
  have hsym : isSymbol 0 = false := by decide
  have hne := foldCase_ne_zero h
  simp [Tells, hzero, hsym, hne, hne.symm]

/-- The strings agree if and only if no pair differs. -/
theorem agreeNoCase_iff (h1 : 0 ∉ s1) (h2 : 0 ∉ s2) :
    AgreeNoCase s1 s2 len ↔ ∀ p ∈ paired s1 s2 len, foldCase p.1 = foldCase p.2 := by
  induction len generalizing s1 s2 with
  | zero => simp [AgreeNoCase, paired]
  | succ len ih =>
    cases s1 with
    | nil =>
      cases s2 with
      | nil => simp [AgreeNoCase, paired_nil_nil]
      | cons c2 s2 =>
        have hne := (tells_zero (List.ne_of_not_mem_cons h2).symm).1.1
        simp [AgreeNoCase, paired_nil_cons, hne]
    | cons c1 s1 =>
      cases s2 with
      | nil =>
        have hne := (tells_zero (List.ne_of_not_mem_cons h1).symm).2.1
        simp [AgreeNoCase, paired_cons_nil, hne]
      | cons c2 s2 =>
        have hrest := ih (List.not_mem_of_not_mem_cons h1) (List.not_mem_of_not_mem_cons h2)
        rw [paired_cons, List.forall_mem_cons, ← hrest]
        simp [AgreeNoCase]

/-! ### The loop -/

/-- The loop never reads behind the 0 of the shorter string. The characters it ends with are
equal if and only if no pair tells the strings apart. -/
theorem nicmpLoop_spec (rest1 rest2 : List UInt8) (len : Nat) (c : UInt8) (h1 : 0 ∉ s1)
    (h2 : 0 ∉ s2) :
    ∃ d1 d2, nicmpLoop len (s1 ++ 0 :: rest1) (s2 ++ 0 :: rest2) c c = some (d1, d2) ∧
      (d1 = d2 ↔ ∀ p ∈ paired s1 s2 len, ¬ Tells p.1 p.2) := by
  have hsame : ∀ d : UInt8, ¬ Tells d d := fun d h => h.1 rfl
  induction len generalizing s1 s2 c with
  | zero => exact ⟨c, c, rfl, by simp [paired]⟩
  | succ len ih =>
    cases s1 with
    | nil =>
      cases s2 with
      | nil => exact ⟨0, 0, by simp [nicmpLoop], by simp [paired_nil_nil, hsame]⟩
      | cons c2 s2 =>
        have hc2 : c2 ≠ 0 := (List.ne_of_not_mem_cons h2).symm
        exact ⟨0, c2, by simp [nicmpLoop],
          by simp [paired_nil_cons, (tells_zero hc2).1, hc2.symm]⟩
    | cons c1 s1 =>
      have hc1 : c1 ≠ 0 := (List.ne_of_not_mem_cons h1).symm
      cases s2 with
      | nil =>
        exact ⟨c1, 0, by simp [nicmpLoop],
          by simp [paired_cons_nil, (tells_zero hc1).2, hc1]⟩
      | cons c2 s2 =>
        have hc2 : c2 ≠ 0 := (List.ne_of_not_mem_cons h2).symm
        have hn1 := List.not_mem_of_not_mem_cons h1
        have hn2 := List.not_mem_of_not_mem_cons h2
        simp only [paired_cons, List.forall_mem_cons, List.cons_append, nicmpLoop, hc1, hc2,
          if_false]
        -- the characters are equal, or `acoral_tolower` maps both to one, or the loop ends
        by_cases heq : c1 = c2
        · subst heq
          simpa only [if_true, hsame c1, not_false_iff, true_and] using ih _ hn1 hn2
        · by_cases hlow : acoralTolower c1 = acoralTolower c2
          · have htells : ¬ Tells c1 c2 := fun h => (acoralTolower_ne_iff hc1 hc2).mpr h hlow
            simpa [heq, hlow, htells] using ih _ hn1 hn2
          · have htells : Tells c1 c2 := (acoralTolower_ne_iff hc1 hc2).mp hlow
            exact ⟨acoralTolower c1, acoralTolower c2, by simp [heq, hlow],
              by simp [hlow, htells]⟩

/-- `acoral_str_nicmp` answers 0 if and only if no pair tells the strings apart. -/
theorem acoralStrNicmp_eq_zero_iff (h1 : Terminated buf1 s1) (h2 : Terminated buf2 s2) :
    acoralStrNicmp buf1 buf2 len = some 0 ↔ ∀ p ∈ paired s1 s2 len, ¬ Tells p.1 p.2 := by
  obtain ⟨hn1, rest1, rfl⟩ := h1
  obtain ⟨hn2, rest2, rfl⟩ := h2
  obtain ⟨d1, d2, hloop, hiff⟩ := nicmpLoop_spec rest1 rest2 len 0 hn1 hn2
  have hzero : ((d1.toNat : Int) - d2.toNat = 0) ↔ d1 = d2 := by
    rw [← UInt8.toNat_inj]
    omega
  simp only [acoralStrNicmp, hloop, Option.map_some, Option.some.injEq, hzero, hiff]

/-- `acoral_str_nicmp` answers 0 exactly on strings that agree in whatever case, unless the
strings differ in symbols only. -/
theorem acoralStrNicmp_agree_iff (h1 : Terminated buf1 s1) (h2 : Terminated buf2 s2) :
    (acoralStrNicmp buf1 buf2 len = some 0 ↔ AgreeNoCase s1 s2 len) ↔
      ¬ OnlySymbolsDiffer s1 s2 len := by
  have hsym : (∀ p ∈ paired s1 s2 len, ¬ Tells p.1 p.2) ↔
      ∀ p ∈ paired s1 s2 len, foldCase p.1 ≠ foldCase p.2 →
        isSymbol p.1 = true ∧ isSymbol p.2 = true := by
    refine forall₂_congr fun p _ => ?_
    unfold Tells
    tauto
  have hagree : AgreeNoCase s1 s2 len → ∀ p ∈ paired s1 s2 len, ¬ Tells p.1 p.2 := by
    intro hall p hp htells
    exact htells.1 ((agreeNoCase_iff h1.1 h2.1).mp hall p hp)
  rw [acoralStrNicmp_eq_zero_iff h1 h2, OnlySymbolsDiffer, ← hsym]
  tauto

/-- "Ab" and "aB" agree, and the function says so. -/
theorem acoralStrNicmp_agree_iff_ab :
    (acoralStrNicmp [0x41, 0x62, 0] [0x61, 0x42, 0] 9 = some 0 ↔
      AgreeNoCase [0x41, 0x62] [0x61, 0x42] 9) ↔
      ¬ OnlySymbolsDiffer [0x41, 0x62] [0x61, 0x42] 9 :=
  acoralStrNicmp_agree_iff ⟨by decide, [], rfl⟩ ⟨by decide, [], rfl⟩

/-- "1" and "2" do not agree, and the function answers 0. -/
theorem acoralStrNicmp_agree_fails :
    acoralStrNicmp [0x31, 0] [0x32, 0] 1 = some 0 ∧ ¬ AgreeNoCase [0x31] [0x32] 1 := by
  refine ⟨by decide, ?_⟩
  unfold AgreeNoCase
  decide

end ACoral
