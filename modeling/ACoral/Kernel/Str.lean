import ACoral.Lib.ByteCopy

/-!
# `ACoral.Kernel.Str`: strings and memory in `components/tmp/lib/src/str.c`

A pointer to characters is the list of the bytes of memory from that address on, up to
where the memory that the program may read ends. `*s` is the first byte of the list, and
`s++` leaves the rest. A read behind the end of the memory is `none`.

A string is the list of its characters, none of which is 0. `Terminated buf s` says that
the memory at a pointer holds the string `s`: its characters, a 0, and then anything.

The functions on memory of a fixed size take it as a map from indices to bytes. They are
total: who calls them says which indices are inside.
-/

set_option autoImplicit false

namespace ACoral

/-- `IS_LOWER`. -/
def IS_LOWER (c : UInt8) : Bool := decide ('a'.toUInt8 ≤ c) && decide (c ≤ 'z'.toUInt8)

/-- `IS_UPPER`. -/
def IS_UPPER (c : UInt8) : Bool := decide ('A'.toUInt8 ≤ c) && decide (c ≤ 'Z'.toUInt8)

theorem IS_LOWER_iff {c : UInt8} : IS_LOWER c = true ↔ 97 ≤ c.toNat ∧ c.toNat ≤ 122 := by
  have ha : 'a'.toUInt8.toNat = 97 := rfl
  have hz : 'z'.toUInt8.toNat = 122 := rfl
  simp only [IS_LOWER, Bool.and_eq_true, decide_eq_true_eq, UInt8.le_iff_toNat_le, ha, hz]

theorem IS_UPPER_iff {c : UInt8} : IS_UPPER c = true ↔ 65 ≤ c.toNat ∧ c.toNat ≤ 90 := by
  have hA : 'A'.toUInt8.toNat = 65 := rfl
  have hZ : 'Z'.toUInt8.toNat = 90 := rfl
  simp only [IS_UPPER, Bool.and_eq_true, decide_eq_true_eq, UInt8.le_iff_toNat_le, hA, hZ]

/-- `acoral_tolower`. It answers `FALSE` for a character that is not a letter. -/
def acoralTolower (c : UInt8) : UInt8 :=
  if IS_LOWER c then c
  else if IS_UPPER c then c + 32
  else 0

/-- The loop of `acoral_str_nicmp`, with `len` rounds left and the values of `c1` and `c2`
that the round before has left. The answer is the values at the end. -/
def nicmpLoop : (len : Nat) → (s1 s2 : List UInt8) → (c1 c2 : UInt8) → Option (UInt8 × UInt8)
  | 0,       _,        _,        c1, c2 => some (c1, c2)
  | len + 1, c1 :: s1, c2 :: s2, _,  _  =>
      if c1 = 0 then some (c1, c2)
      else if c2 = 0 then some (c1, c2)
      else if c1 = c2 then nicmpLoop len s1 s2 c1 c2
      else if acoralTolower c1 ≠ acoralTolower c2 then some (acoralTolower c1, acoralTolower c2)
      else nicmpLoop len s1 s2 (acoralTolower c1) (acoralTolower c2)
  | _ + 1,   _,        _,        _,  _  => none

/-- `acoral_str_nicmp`; `none` when it reads behind the end of the memory. -/
def acoralStrNicmp (s1 s2 : List UInt8) (len : Nat) : Option Int :=
  (nicmpLoop len s1 s2 0 0).map fun (c1, c2) => (c1.toNat : Int) - c2.toNat

/-- The memory at `buf` holds the string `s`. -/
def Terminated (buf s : List UInt8) : Prop := 0 ∉ s ∧ ∃ rest, buf = s ++ 0 :: rest

/-! ### Memory -/

/-- `acoral_memset(s, c, count)`, from byte `i` on. -/
def acoralMemset (c : UInt8) : (count i : Nat) → (s : Nat → UInt8) → Nat → UInt8
  | 0,         _, s => s
  | count + 1, i, s => acoralMemset c count (i + 1) (Function.update s i c)

/-- `acoral_memcpy(dest, src, count)` between two arrays, from byte `i` on. -/
def acoralMemcpy (src : Nat → UInt8) : (count i : Nat) → (dest : Nat → UInt8) → Nat → UInt8
  | 0,         _, dest => dest
  | count + 1, i, dest => acoralMemcpy src count (i + 1) (Function.update dest i (src i))

/-- `acoral_memmove(dest, src, count)` within one array. -/
def acoralMemmove (dest src count : Nat) (m : Nat → UInt8) : Nat → UInt8 :=
  if dest ≤ src then Lib.copyUp dest src count m else Lib.copyDown dest src count m

/-- `acoral_memcmp(cs, ct, count)`, from byte `i` on. -/
def acoralMemcmp (cs ct : Nat → UInt8) : (count i : Nat) → Int
  | 0,         _ => 0
  | count + 1, i =>
      let res : Int := (cs i).toNat - (ct i).toNat
      if res ≠ 0 then res else acoralMemcmp cs ct count (i + 1)

theorem acoralMemcpy_eq (src : Nat → UInt8) (count i : Nat) (dest : Nat → UInt8) :
    acoralMemcpy src count i dest = fun j => if i ≤ j ∧ j < i + count then src j else dest j := by
  induction count generalizing i dest with
  | zero =>
      funext j
      rw [if_neg (by omega)]
      rfl
  | succ count ih =>
      funext j
      rw [acoralMemcpy, ih]
      show (if i + 1 ≤ j ∧ j < i + 1 + count then src j else Function.update dest i (src i) j) = _
      by_cases hfirst : j = i
      · rw [hfirst, Function.update_self, if_neg (by omega), if_pos (by omega)]
      · rw [Function.update_of_ne hfirst]
        exact if_congr (by omega) rfl rfl

/-- Filling is copying from an array that has the byte everywhere. -/
theorem acoralMemset_eq (c : UInt8) (count i : Nat) (s : Nat → UInt8) :
    acoralMemset c count i s = acoralMemcpy (fun _ => c) count i s := by
  induction count generalizing i s with
  | zero => rfl
  | succ count ih => exact ih (i + 1) _

theorem acoralMemmove_eq (dest src count : Nat) (m : Nat → UInt8) :
    acoralMemmove dest src count m = Lib.moved dest src count m := by
  unfold acoralMemmove
  by_cases hle : dest ≤ src
  · rw [if_pos hle, Lib.copyUp_eq hle]
  · rw [if_neg hle, Lib.copyDown_eq (by omega)]

theorem acoralMemcmp_eq_zero_iff {cs ct : Nat → UInt8} {count i : Nat} :
    acoralMemcmp cs ct count i = 0 ↔ ∀ j, i ≤ j → j < i + count → cs j = ct j := by
  induction count generalizing i with
  | zero => exact ⟨fun _ j hj hj' => by omega, fun _ => rfl⟩
  | succ count ih =>
      have hres : ((cs i).toNat : Int) - (ct i).toNat ≠ 0 ↔ cs i ≠ ct i := by
        rw [ne_eq, ne_eq, ← UInt8.toNat_inj]
        omega
      rw [acoralMemcmp]
      by_cases hne : cs i = ct i
      · rw [if_neg (not_not.mpr hne ∘ hres.mp), ih]
        refine ⟨fun h j hj hj' => ?_, fun h j hj hj' => h j (by omega) (by omega)⟩
        rcases Nat.eq_or_lt_of_le hj with rfl | hlt
        · exact hne
        · exact h j hlt (by omega)
      · rw [if_pos (hres.mpr hne)]
        refine ⟨fun h => absurd h (hres.mpr hne), fun h => ?_⟩
        exact absurd (h i (Nat.le_refl _) (by omega)) hne

end ACoral
