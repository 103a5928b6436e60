import ACoral.Kernel.PbDecode
import ACoral.Kernel.PbEncode
import ACoral.Lib.Base128
import ACoral.Lib.Reader
import Mathlib.Algebra.Group.Int.Defs

/-!
# `ACoral.Proofs.PbVarint`: numbers on the wire

* `varintBytes_eq`: the encoder, which works on two halves of 32 bits, writes the shortest form
  of a number.
* `pbDecodeVarint_groups`, `pbDecodeVarint_open`: what the decoder of 64 bits does on any
  stream. It takes every form of a number that has ten bytes at most.
* `pbDecodeVarint32_agrees`: the decoder of 32 bits against the one of 64.
* `svarint_roundTrip`: signed numbers.
-/

set_option autoImplicit false

namespace ACoral

open Lib

/-! ### Bits of a byte -/

theorem toNat_and_7F (b : UInt8) : (b &&& 0x7F).toNat = b.toNat % 128 := by
  rw [UInt8.toNat_and]
  exact Nat.and_two_pow_sub_one_eq_mod b.toNat 7

theorem toNat_and_0F (b : UInt8) : (b &&& 0x0F).toNat = b.toNat % 16 := by
  rw [UInt8.toNat_and]
  exact Nat.and_two_pow_sub_one_eq_mod b.toNat 4

/-- The bits from `i` on that a mask of `k` bits leaves. -/
theorem and_mask (n i k : Nat) : n &&& (2 ^ k - 1) <<< i = n / 2 ^ i % 2 ^ k * 2 ^ i := by
  rw [← Nat.shiftLeft_eq, ← Nat.shiftRight_eq_div_pow]
  refine Nat.eq_of_testBit_eq fun j => ?_
  rw [Nat.testBit_and, Nat.testBit_shiftLeft, Nat.testBit_shiftLeft, Nat.testBit_mod_two_pow,
    Nat.testBit_two_pow_sub_one, Nat.testBit_shiftRight]
  by_cases hj : i ≤ j
  · rw [Nat.add_sub_cancel' hj]
    simp [hj, Bool.and_comm]
  · simp [hj]

theorem and_80_ne_zero_iff (b : UInt8) : b &&& 0x80 ≠ 0 ↔ 128 ≤ b.toNat := by
  have hand : (b &&& 0x80).toNat = b.toNat / 2 ^ 7 % 2 ^ 1 * 2 ^ 7 := by
    rw [UInt8.toNat_and]
    exact and_mask b.toNat 7 1
  have hb := b.toNat_lt
  rw [ne_eq, ← UInt8.toNat_inj, hand, UInt8.toNat_zero]
  omega

theorem and_FE_ne_zero_iff (b : UInt8) : b &&& 0xFE ≠ 0 ↔ 2 ≤ b.toNat := by
  have hand : (b &&& 0xFE).toNat = b.toNat / 2 ^ 1 % 2 ^ 7 * 2 ^ 1 := by
    rw [UInt8.toNat_and]
    exact and_mask b.toNat 1 7
  have hb := b.toNat_lt
  rw [ne_eq, ← UInt8.toNat_inj, hand, UInt8.toNat_zero]
  omega

theorem and_70_ne_zero_iff (b : UInt8) : b &&& 0x70 ≠ 0 ↔ 16 ≤ b.toNat % 128 := by
  have hand : (b &&& 0x70).toNat = b.toNat / 2 ^ 4 % 2 ^ 3 * 2 ^ 4 := by
    rw [UInt8.toNat_and]
    exact and_mask b.toNat 4 3
  rw [ne_eq, ← UInt8.toNat_inj, hand, UInt8.toNat_zero]
  omega

theorem and_78_ne_iff (b : UInt8) : b &&& 0x78 ≠ 0x78 ↔ b.toNat % 128 < 120 := by
  have hand : (b &&& 0x78).toNat = b.toNat / 2 ^ 3 % 2 ^ 4 * 2 ^ 3 := by
    rw [UInt8.toNat_and]
    exact and_mask b.toNat 3 4
  rw [ne_eq, ← UInt8.toNat_inj, hand]
  show ¬ _ = 120 ↔ _
  omega

theorem or_80 {b : UInt8} (h : b.toNat < 128) : b ||| 0x80 = UInt8.ofNat (b.toNat + 128) := by
  have hor : 2 ^ 7 * 1 + b.toNat = 2 ^ 7 * 1 ||| b.toNat := Nat.two_pow_add_eq_or_of_lt h 1
  rw [← UInt8.toNat_inj, UInt8.toNat_or, UInt8.toNat_ofNat', Nat.or_comm]
  show 2 ^ 7 * 1 ||| b.toNat = _
  rw [← hor]
  omega

/-! ### The encoder -/

theorem toNat_shiftRight_7 (x : UInt32) : (x >>> 7).toNat = x.toNat / 128 := by
  rw [UInt32.toNat_shiftRight]
  exact Nat.shiftRight_eq_div_pow _ _

/-- The lowest seven bits of a half, as a byte. -/
theorem toNat_group (x : UInt32) : ((x &&& 0x7F).toUInt8).toNat = x.toNat % 128 := by
  have hmod : x.toNat &&& 127 = x.toNat % 128 := Nat.and_two_pow_sub_one_eq_mod x.toNat 7
  rw [UInt32.toNat_toUInt8, UInt32.toNat_and]
  show (x.toNat &&& 127) % 2 ^ 8 = _
  rw [hmod]
  omega

/-- A byte with the high bit set goes before the rest of the number. -/
theorem encode128_group {byte : UInt8} {n : Nat} (hbyte : byte.toNat < 128) (hn : 0 < n) :
    encode128 (byte.toNat + 128 * n) = (byte ||| 0x80) :: encode128 n := by
  rw [encode128_of_le (by omega), or_80 hbyte]
  congr 2 <;> omega

/-- The second loop writes the shortest form. -/
theorem varintHigh_eq {rounds : Nat} {high : UInt32} {byte : UInt8} (hbyte : byte.toNat < 128)
    (hhigh : high.toNat < 128 ^ rounds) :
    (varintHigh rounds high byte).1 ++ [(varintHigh rounds high byte).2] =
      encode128 (byte.toNat + 128 * high.toNat) := by
  induction rounds generalizing high byte with
  | zero =>
      have hzero : high.toNat = 0 := by omega
      rw [hzero, Nat.mul_zero, Nat.add_zero, encode128_of_lt hbyte, UInt8.ofNat_toNat]
      rfl
  | succ rounds ih =>
      rw [varintHigh]
      by_cases hnone : high = 0
      · rw [if_neg (not_not.mpr hnone), hnone, UInt32.toNat_zero, Nat.mul_zero, Nat.add_zero,
          encode128_of_lt hbyte, UInt8.ofNat_toNat]
        rfl
      · have hpos : high.toNat ≠ 0 := fun h => hnone (UInt32.toNat_inj.mp h)
        have hlt : (high >>> 7).toNat < 128 ^ rounds := by
          rw [toNat_shiftRight_7, Nat.div_lt_iff_lt_mul (by decide), ← Nat.pow_succ]
          exact hhigh
        have hgroup : (high &&& 0x7F).toUInt8.toNat < 128 := by
          rw [toNat_group]
          omega
        have hrest := ih hgroup hlt
        rw [toNat_group, toNat_shiftRight_7, Nat.mod_add_div] at hrest
        rw [if_pos hnone, encode128_group hbyte (by omega), ← hrest]
        rfl

/-- For a number of 32 bits the first loop is the second one. -/
theorem varintLow_eq_varintHigh (rounds : Nat) (low : UInt32) (byte : UInt8) :
    varintLow rounds low 0 byte = varintHigh rounds low byte := by
  induction rounds generalizing low byte with
  | zero => rfl
  | succ rounds ih =>
      rw [varintLow, varintHigh, ih]
      by_cases hnone : low = 0
      · rw [if_neg (by simp [hnone]), if_neg (by simp [hnone])]
      · rw [if_pos (Or.inl hnone), if_pos hnone]

/-- Before a high half the first loop goes on to the last four bits of the low one. -/
theorem varintLow_eq {rounds : Nat} {low high : UInt32} {byte : UInt8} (hbyte : byte.toNat < 128)
    (hlow : low.toNat < 2 ^ (7 * rounds + 4)) (hhigh : high ≠ 0) :
    (varintLow (rounds + 1) low high byte).2.toNat < 16 ∧
      encode128 (byte.toNat + 128 * (low.toNat + 2 ^ (7 * rounds + 4) * high.toNat)) =
        (varintLow (rounds + 1) low high byte).1 ++
          encode128 ((varintLow (rounds + 1) low high byte).2.toNat + 16 * high.toNat) := by
  have hpos : 0 < high.toNat :=
    Nat.pos_of_ne_zero fun h => hhigh (UInt32.toNat_inj.mp h)
  have hrest : 0 < 2 ^ (7 * rounds + 4) * high.toNat := Nat.mul_pos (Nat.two_pow_pos _) hpos
  rw [varintLow, if_pos (Or.inr hhigh), encode128_group hbyte (by omega)]
  show (varintLow rounds _ _ _).2.toNat < 16 ∧ _ = _ :: ((varintLow rounds _ _ _).1 ++ _)
  induction rounds generalizing low byte with
  | zero =>
      have hlast : (low &&& 0x7F).toUInt8.toNat = low.toNat := by
        rw [toNat_group]
        exact Nat.mod_eq_of_lt (by omega)
      show (low &&& 0x7F).toUInt8.toNat < 16 ∧
        _ = _ :: ([] ++ encode128 ((low &&& 0x7F).toUInt8.toNat + _))
      rw [hlast]
      exact ⟨hlow, rfl⟩
  | succ rounds ih =>
      have hpow : 2 ^ (7 * (rounds + 1) + 4) = 128 * 2 ^ (7 * rounds + 4) := by
        rw [show 7 * (rounds + 1) + 4 = 7 + (7 * rounds + 4) by omega, Nat.pow_add]
      have hnext : (low >>> 7).toNat < 2 ^ (7 * rounds + 4) := by
        rw [toNat_shiftRight_7]
        omega
      have hbelow : 0 < 2 ^ (7 * rounds + 4) * high.toNat :=
        Nat.mul_pos (Nat.two_pow_pos _) hpos
      have hbyte' : (low &&& 0x7F).toUInt8.toNat < 128 := by
        rw [toNat_group]
        omega
      have hsplit : low.toNat + 2 ^ (7 * (rounds + 1) + 4) * high.toNat =
          (low &&& 0x7F).toUInt8.toNat +
            128 * ((low >>> 7).toNat + 2 ^ (7 * rounds + 4) * high.toNat) := by
        rw [toNat_group, toNat_shiftRight_7, hpow, Nat.mul_assoc]
        omega
      have hih := ih hbyte' hnext hbelow
      rw [varintLow, if_pos (Or.inr hhigh), hsplit, encode128_group hbyte' (by omega)]
      exact ⟨hih.1, congrArg _ hih.2⟩

/-- The bytes before a high half, and the byte that the two halves share. -/
theorem varint32Bytes_of_ne {low high : UInt32} {out out' : List UInt8 × UInt8}
    (hhigh : high ≠ 0) (hlow : varintLow 4 (low >>> 7) high (low &&& 0x7F).toUInt8 = out)
    (hrest : varintHigh 5 (high >>> 3) (out.2 ||| ((high &&& 0x07) <<< 4).toUInt8) = out') :
    varint32Bytes low high = out.1 ++ (out'.1 ++ [out'.2]) := by
  rw [varint32Bytes, hlow]
  show (if high ≠ 0 then _ else _) = _
  rw [if_pos hhigh, hrest, ← List.append_assoc]

theorem toNat_shared {byte : UInt8} (hbyte : byte.toNat < 16) (high : UInt32) :
    (byte ||| ((high &&& 0x07) <<< 4).toUInt8).toNat = byte.toNat + 16 * (high.toNat % 8) := by
  have hmod : (high &&& 0x07).toNat = high.toNat % 8 := by
    rw [UInt32.toNat_and]
    exact Nat.and_two_pow_sub_one_eq_mod high.toNat 3
  have hshift : (((high &&& 0x07) <<< 4).toUInt8).toNat = (high.toNat % 8) <<< 4 := by
    rw [UInt32.toNat_toUInt8, UInt32.toNat_shiftLeft, hmod]
    show (high.toNat % 8) <<< 4 % 2 ^ 32 % 2 ^ 8 = _
    rw [Nat.shiftLeft_eq]
    omega
  rw [UInt8.toNat_or, hshift, Nat.or_comm, Nat.shiftLeft_eq, Nat.mul_comm,
    ← Nat.two_pow_add_eq_or_of_lt hbyte, Nat.add_comm]

/-- The two halves give the shortest form of the number. -/
theorem varintBytes_eq (value : UInt64) : varintBytes value = encode128 value.toNat := by
  have hle : value ≤ 0x7F ↔ value.toNat ≤ 127 := UInt64.le_iff_toNat_le
  rw [varintBytes]
  by_cases hsmall : value ≤ 0x7F
  · rw [if_pos hsmall, encode128_of_lt (Nat.lt_succ_of_le (hle.mp hsmall))]
    rfl
  · rw [if_neg hsmall]
    generalize hlow : value.toUInt32 = low
    generalize hhigh : (value >>> 32).toUInt32 = high
    have hvalue : value.toNat = low.toNat + 2 ^ 32 * high.toNat := by
      have hshift : (value >>> 32).toNat = value.toNat / 2 ^ 32 := by
        rw [UInt64.toNat_shiftRight]
        exact Nat.shiftRight_eq_div_pow _ _
      have hlt := value.toNat_lt
      rw [← hlow, ← hhigh, UInt64.toNat_toUInt32, UInt64.toNat_toUInt32, hshift]
      omega
    have hlt := low.toNat_lt
    have hnext : (low >>> 7).toNat < 2 ^ (7 * 3 + 4) := by
      rw [toNat_shiftRight_7]
      omega
    have hbyte : (low &&& 0x7F).toUInt8.toNat < 128 := by
      rw [toNat_group]
      omega
    by_cases hnone : high = 0
    · have hshort : varint32Bytes low high =
          (varintLow 4 (low >>> 7) high (low &&& 0x7F).toUInt8).1 ++
            [(varintLow 4 (low >>> 7) high (low &&& 0x7F).toUInt8).2] := by
        rw [varint32Bytes]
        exact if_neg (not_not.mpr hnone)
      rw [hshort, hnone, varintLow_eq_varintHigh, varintHigh_eq hbyte (by omega), toNat_group,
        toNat_shiftRight_7, Nat.mod_add_div, hvalue, hnone, UInt32.toNat_zero, Nat.mul_zero,
        Nat.add_zero]
    · obtain ⟨hlast, heq⟩ := varintLow_eq hbyte hnext hnone
      generalize hout : varintLow 4 (low >>> 7) high (low &&& 0x7F).toUInt8 = out at hlast heq
      have hshared := toNat_shared hlast high
      have hhigh3 : (high >>> 3).toNat = high.toNat / 8 := by
        rw [UInt32.toNat_shiftRight]
        exact Nat.shiftRight_eq_div_pow _ _
      have hhighlt := high.toNat_lt
      have hshared_lt : (out.2 ||| ((high &&& 0x07) <<< 4).toUInt8).toNat < 128 := by omega
      have hhigh3_lt : (high >>> 3).toNat < 128 ^ 5 := by omega
      have hrest := varintHigh_eq hshared_lt hhigh3_lt
      rw [varint32Bytes_of_ne hnone hout rfl, hrest, hshared, hhigh3]
      have hjoin : out.2.toNat + 16 * (high.toNat % 8) + 128 * (high.toNat / 8) =
          out.2.toNat + 16 * high.toNat := by omega
      rw [hjoin, ← heq, hvalue, toNat_group, toNat_shiftRight_7]
      congr 1
      omega

/-! ### The decoder of 64 bits -/

section Decoder

variable {byte : UInt8} {k : Nat} {g stream rest : List UInt8} {result value : UInt64}

/-- A byte more, with its seven bits over those that are there. -/
theorem toNat_or_shift (hk : k ≤ 9) (hresult : result.toNat < 128 ^ k)
    (hbits : 128 ^ k * (byte.toNat % 128) < 2 ^ 64) :
    (result ||| ((byte &&& 0x7F).toUInt64 <<< UInt64.ofNat (7 * k))).toNat =
      result.toNat + 128 ^ k * (byte.toNat % 128) := by
  have hpow : 128 ^ k = 2 ^ (7 * k) := by rw [Nat.pow_mul]
  have hpos : (UInt64.ofNat (7 * k)).toNat % 64 = 7 * k := by
    rw [UInt64.toNat_ofNat']
    omega
  rw [hpow] at hresult hbits ⊢
  rw [UInt64.toNat_or, UInt64.toNat_shiftLeft, hpos, UInt8.toNat_toUInt64, toNat_and_7F,
    Nat.shiftLeft_eq, Nat.mul_comm, Nat.mod_eq_of_lt hbits, Nat.or_comm,
    ← Nat.two_pow_add_eq_or_of_lt hresult, Nat.add_comm]

/-- Nine bytes do not overflow. -/
theorem group_lt (hk : k < 9) (b : Nat) : 128 ^ k * (b % 128) < 2 ^ 64 := by
  have hpow : 128 ^ k ≤ 128 ^ 8 := Nat.pow_le_pow_right (by decide) (by omega)
  have hmul : 128 ^ k * (b % 128) ≤ 128 ^ 8 * 127 := Nat.mul_le_mul hpow (by omega)
  omega

theorem result_lt {r : Nat} (hresult : r < 128 ^ k) (b : Nat) :
    r + 128 ^ k * (b % 128) < 128 ^ (k + 1) := by
  have hmul : 128 ^ k * (b % 128) ≤ 128 ^ k * 127 := Nat.mul_le_mul_left _ (by omega)
  rw [Nat.pow_succ]
  omega

theorem not_overflow (hk : k < 9) : ¬ (7 * k ≥ 63 ∧ byte &&& 0xFE ≠ 0) := by
  rintro ⟨hge, -⟩
  omega

/-- What the loop makes of a form, with `k` bytes before it. -/
theorem decodeVarintLoop_groups (hg : Groups g) (hk : k ≤ 9) (hresult : result.toNat < 128 ^ k) :
    decodeVarintLoop (g ++ rest) (7 * k) result =
      if g.length ≤ 10 - k ∧ result.toNat + 128 ^ k * value128 g < 2 ^ 64 then
        .ok (UInt64.ofNat (result.toNat + 128 ^ k * value128 g), rest)
      else .error .varintOverflow := by
  induction hg generalizing k result with
  | @last byte hbyte =>
      rw [List.singleton_append, decodeVarintLoop]
      have hvalue : value128 [byte] = byte.toNat % 128 := by
        rw [value128, value128]
        omega
      rw [hvalue]
      by_cases hover : 7 * k ≥ 63 ∧ byte &&& 0xFE ≠ 0
      · have hk9 : k = 9 := by omega
        have htwo := (and_FE_ne_zero_iff byte).mp hover.2
        have hbig : ¬ (result.toNat + 128 ^ k * (byte.toNat % 128) < 2 ^ 64) := by
          rw [hk9, Nat.mod_eq_of_lt hbyte]
          omega
        rw [if_pos hover, if_neg fun h => hbig h.2]
      · have hbits : 128 ^ k * (byte.toNat % 128) < 2 ^ 64 ∧
            result.toNat + 128 ^ k * (byte.toNat % 128) < 2 ^ 64 := by
          by_cases hk9 : k = 9
          · have hone : ¬ 2 ≤ byte.toNat := fun h =>
              hover ⟨by omega, (and_FE_ne_zero_iff byte).mpr h⟩
            rw [hk9] at hresult ⊢
            rw [Nat.mod_eq_of_lt hbyte]
            omega
          · have hlt := result_lt hresult byte.toNat
            have hpow : 128 ^ (k + 1) ≤ 128 ^ 9 := Nat.pow_le_pow_right (by decide) (by omega)
            omega
        have hlen : ([byte] : List UInt8).length ≤ 10 - k := by
          rw [List.length_singleton]
          omega
        rw [if_neg hover]
        show (if byte &&& 0x80 ≠ 0 then _ else _) = _
        rw [if_neg fun h => absurd ((and_80_ne_zero_iff byte).mp h) (by omega),
          if_pos ⟨hlen, hbits.2⟩, ← toNat_or_shift hk hresult hbits.1, UInt64.ofNat_toNat]
  | @more byte bs hbyte hbs ih =>
      rw [List.cons_append, decodeVarintLoop]
      by_cases hk9 : k = 9
      · -- a tenth byte that does not end the number
        have hover : 7 * k ≥ 63 ∧ byte &&& 0xFE ≠ 0 :=
          ⟨by omega, (and_FE_ne_zero_iff byte).mpr (by omega)⟩
        have hlong : ¬ (byte :: bs).length ≤ 10 - k := by
          have hpos := List.length_pos_iff.mpr hbs.ne_nil
          rw [List.length_cons]
          omega
        rw [if_pos hover, if_neg fun h => hlong h.1]
      · have hk' : k < 9 := by omega
        have hnext := toNat_or_shift hk hresult (group_lt hk' byte.toNat)
        have hlt := result_lt hresult byte.toNat
        rw [if_neg (not_overflow hk')]
        show (if byte &&& 0x80 ≠ 0 then _ else _) = _
        rw [if_pos ((and_80_ne_zero_iff byte).mpr hbyte), ← Nat.mul_succ,
          ih (k := k + 1) (by omega) (by rw [hnext]; exact hlt), hnext, value128]
        have hsum : result.toNat + 128 ^ k * (byte.toNat % 128) + 128 ^ (k + 1) * value128 bs =
            result.toNat + 128 ^ k * (byte.toNat % 128 + 128 * value128 bs) := by
          rw [Nat.pow_succ, Nat.mul_add, Nat.mul_assoc, Nat.add_assoc]
        have hlen : bs.length ≤ 10 - (k + 1) ↔ (byte :: bs).length ≤ 10 - k := by
          rw [List.length_cons]
          omega
        simp only [hsum, hlen]

/-- What the loop makes of a stream without an end of the number. -/
theorem decodeVarintLoop_open (hopen : ∀ b ∈ stream, 128 ≤ b.toNat) (hk : k ≤ 9) :
    decodeVarintLoop stream (7 * k) result =
      if 10 - k ≤ stream.length then .error .varintOverflow else .error .endOfStream := by
  induction stream generalizing k result with
  | nil =>
      rw [decodeVarintLoop, List.length_nil, if_neg (by omega)]
  | cons byte stream ih =>
      obtain ⟨hbyte, hrest⟩ := List.forall_mem_cons.mp hopen
      rw [decodeVarintLoop]
      by_cases hk9 : k = 9
      · have hover : 7 * k ≥ 63 ∧ byte &&& 0xFE ≠ 0 :=
          ⟨by omega, (and_FE_ne_zero_iff byte).mpr (by omega)⟩
        rw [if_pos hover, List.length_cons, if_pos (by omega)]
      · rw [if_neg (not_overflow (by omega))]
        show (if byte &&& 0x80 ≠ 0 then _ else _) = _
        have hlen : 10 - (k + 1) ≤ stream.length ↔ 10 - k ≤ (byte :: stream).length := by
          rw [List.length_cons]
          omega
        rw [if_pos ((and_80_ne_zero_iff byte).mpr hbyte), ← Nat.mul_succ,
          ih hrest (k := k + 1) (by omega)]
        simp only [hlen]

/-- The decoder on a stream that starts with a form. -/
theorem pbDecodeVarint_groups (hg : Groups g) (rest : List UInt8) :
    pbDecodeVarint (g ++ rest) =
      if g.length ≤ 10 ∧ value128 g < 2 ^ 64 then .ok (UInt64.ofNat (value128 g), rest)
      else .error .varintOverflow := by
  have h : decodeVarintLoop (g ++ rest) (7 * 0) 0 = _ :=
    decodeVarintLoop_groups hg (Nat.zero_le _) Nat.one_pos
  rw [UInt64.toNat_zero, Nat.pow_zero, Nat.one_mul, Nat.zero_add] at h
  exact h

/-- The decoder on any other stream. -/
theorem pbDecodeVarint_open (hopen : ∀ b ∈ stream, 128 ≤ b.toNat) :
    pbDecodeVarint stream =
      if 10 ≤ stream.length then .error .varintOverflow else .error .endOfStream :=
  decodeVarintLoop_open (k := 0) hopen (Nat.zero_le _)

/-- The decoder takes from the stream a form of the number of ten bytes at most, and every
such form. -/
theorem pbDecodeVarint_ok_iff :
    pbDecodeVarint stream = .ok (value, rest) ↔
      ∃ g, Groups g ∧ g.length ≤ 10 ∧ value128 g = value.toNat ∧ stream = g ++ rest := by
  constructor
  · intro h
    rcases groups_or_open stream with ⟨g, r, hg, rfl⟩ | hopen
    · rw [pbDecodeVarint_groups hg] at h
      split at h
      · rename_i hfits
        have hpair := Prod.mk.inj (Except.ok.inj h)
        refine ⟨g, hg, hfits.1, ?_, by rw [hpair.2]⟩
        rw [← hpair.1, UInt64.toNat_ofNat']
        exact (Nat.mod_eq_of_lt hfits.2).symm
      · exact absurd h nofun
    · rw [pbDecodeVarint_open hopen] at h
      split at h <;> exact absurd h nofun
  · rintro ⟨g, hg, hlen, hvalue, rfl⟩
    have hlt : value128 g < 2 ^ 64 := by
      rw [hvalue]
      exact value.toNat_lt
    rw [pbDecodeVarint_groups hg, if_pos ⟨hlen, hlt⟩, hvalue, UInt64.ofNat_toNat]

theorem length_varintBytes_le (value : UInt64) : (varintBytes value).length ≤ 10 := by
  rw [varintBytes_eq]
  have hlt := value.toNat_lt
  exact length_encode128_le_of_lt (k := 9) (by omega)

theorem length_varintBytes_pos (value : UInt64) : 0 < (varintBytes value).length := by
  rw [varintBytes_eq]
  exact length_encode128_pos _

theorem groups_varintBytes (value : UInt64) : Groups (varintBytes value) := by
  rw [varintBytes_eq]
  exact groups_encode128 _

theorem pbDecodeVarint_varintBytes (value : UInt64) (rest : List UInt8) :
    pbDecodeVarint (varintBytes value ++ rest) = .ok (value, rest) :=
  pbDecodeVarint_ok_iff.mpr ⟨varintBytes value, groups_varintBytes value,
    length_varintBytes_le value, by rw [varintBytes_eq, value128_encode128], rfl⟩

/-- An overflow is found at the tenth byte, and nowhere else. -/
theorem decodeVarintLoop_overflow_iff (hk : k ≤ 9) :
    decodeVarintLoop stream (7 * k) result = .error .varintOverflow ↔
      (∀ b ∈ stream.take (9 - k), 128 ≤ b.toNat) ∧ ∃ b, stream[9 - k]? = some b ∧ 2 ≤ b.toNat := by
  induction stream generalizing k result with
  | nil => exact ⟨nofun, fun ⟨_, _, h, _⟩ => absurd h nofun⟩
  | cons byte stream ih =>
      rw [decodeVarintLoop]
      by_cases hk9 : k = 9
      · subst hk9
        by_cases htwo : 2 ≤ byte.toNat
        · rw [if_pos ⟨by omega, (and_FE_ne_zero_iff byte).mpr htwo⟩]
          exact ⟨fun _ => ⟨nofun, byte, rfl, htwo⟩, fun _ => rfl⟩
        · rw [if_neg fun h => htwo ((and_FE_ne_zero_iff byte).mp h.2)]
          show (if byte &&& 0x80 ≠ 0 then _ else _) = _ ↔ _
          rw [if_neg fun h => absurd ((and_80_ne_zero_iff byte).mp h) (by omega)]
          exact ⟨nofun, fun ⟨_, _, h, hb⟩ => absurd (Option.some.inj h ▸ hb) htwo⟩
      · obtain ⟨m, hm⟩ : ∃ m, 9 - k = m + 1 := Nat.exists_eq_succ_of_ne_zero (by omega)
        have hnext : 9 - (k + 1) = m := by omega
        rw [if_neg (not_overflow (by omega))]
        show (if byte &&& 0x80 ≠ 0 then _ else _) = _ ↔ _
        rw [hm, List.take_succ_cons, List.getElem?_cons_succ, List.forall_mem_cons]
        by_cases hmore : 128 ≤ byte.toNat
        · rw [if_pos ((and_80_ne_zero_iff byte).mpr hmore), ← Nat.mul_succ,
            ih (k := k + 1) (by omega), hnext]
          exact ⟨fun h => ⟨⟨hmore, h.1⟩, h.2⟩, fun h => ⟨h.1.2, h.2⟩⟩
        · rw [if_neg (mt (and_80_ne_zero_iff byte).mp hmore)]
          exact ⟨nofun, fun h => absurd h.1.1 hmore⟩

/-- The decoder of 64 bits, for every stream. It takes the forms of numbers that have ten bytes
at most, finds an overflow where nine bytes go on and the tenth has more than one bit, and else
misses the end of a number of fewer than ten bytes. -/
theorem pbDecodeVarint_exact (stream : List UInt8) :
    (∀ value rest, pbDecodeVarint stream = .ok (value, rest) ↔
      ∃ g, Groups g ∧ g.length ≤ 10 ∧ value128 g = value.toNat ∧ stream = g ++ rest) ∧
    (pbDecodeVarint stream = .error .varintOverflow ↔
      (∀ b ∈ stream.take 9, 128 ≤ b.toNat) ∧ ∃ b, stream[9]? = some b ∧ 2 ≤ b.toNat) ∧
    (pbDecodeVarint stream = .error .endOfStream ↔
      stream.length < 10 ∧ ∀ b ∈ stream, 128 ≤ b.toNat) := by
  refine ⟨fun _ _ => pbDecodeVarint_ok_iff, decodeVarintLoop_overflow_iff (Nat.zero_le 9), ?_⟩
  constructor
  · intro h
    rcases groups_or_open stream with ⟨g, r, hg, rfl⟩ | hopen
    · rw [pbDecodeVarint_groups hg] at h
      split at h <;> exact absurd h nofun
    · rw [pbDecodeVarint_open hopen] at h
      split at h
      · exact absurd h nofun
      · exact ⟨by omega, hopen⟩
  · rintro ⟨hlen, hopen⟩
    rw [pbDecodeVarint_open hopen, if_neg (by omega)]

/-- A number comes back from its bytes, whatever comes after them, and the decoder takes no
shorter ones for it. -/
theorem varint_roundTrip (value : UInt64) :
    Takes pbDecodeVarint (varintBytes value) value ∧ (varintBytes value).length ≤ 10 ∧
      ∀ g, Takes pbDecodeVarint g value → (varintBytes value).length ≤ g.length := by
  refine ⟨pbDecodeVarint_varintBytes value, length_varintBytes_le value, fun g hg => ?_⟩
  obtain ⟨g', hg', -, hvalue, heq⟩ := pbDecodeVarint_ok_iff.mp (hg [])
  rw [List.append_nil, List.append_nil] at heq
  rw [varintBytes_eq, heq, ← hvalue]
  exact hg'.length_encode128_le

end Decoder

/-! ### The decoder of 32 bits -/

section Decoder32

variable {byte : UInt8} {k low : Nat} {g stream rest : List UInt8} {result r : UInt32}
  {value : UInt64}

/-- The byte after `k` others is not refused. -/
def Accepts32 (k : Nat) (result : UInt32) (byte : UInt8) : Prop :=
  k < 4 ∨ k = 4 ∧ (byte.toNat % 128 < 16 ∨ 120 ≤ byte.toNat % 128) ∨
    5 ≤ k ∧ k ≤ 9 ∧ (byte.toNat % 128 = 0 ∨
      2 ^ 31 ≤ result.toNat ∧ byte.toNat = if k < 9 then 255 else 1)

/-- A byte more. The bits that do not fit are lost. -/
def next32 (k : Nat) (result : UInt32) (byte : UInt8) : UInt32 :=
  UInt32.ofNat (result.toNat + 128 ^ k * (byte.toNat % 128))

theorem toNat_next32 (k : Nat) (result : UInt32) (byte : UInt8) :
    (next32 k result byte).toNat = (result.toNat + 128 ^ k * (byte.toNat % 128)) % 2 ^ 32 :=
  UInt32.toNat_ofNat'

/-- `or` with `bits` of the byte, among which are those that fit. -/
theorem or_shift32 {bits : UInt8} (byte : UInt8) (hk : k ≤ 4) (hresult : result.toNat < 128 ^ k)
    (hbits : 128 ^ k * bits.toNat % 2 ^ 32 = 128 ^ k * (byte.toNat % 128) % 2 ^ 32)
    (hfit : 128 ^ k * bits.toNat < 2 ^ 32) :
    result ||| (bits.toUInt32 <<< UInt32.ofNat (7 * k)) = next32 k result byte := by
  have hpow : 128 ^ k = 2 ^ (7 * k) := by rw [Nat.pow_mul]
  have hpos : (UInt32.ofNat (7 * k)).toNat % 32 = 7 * k := by
    rw [UInt32.toNat_ofNat']
    omega
  apply UInt32.toNat_inj.mp
  rw [toNat_next32, Nat.add_mod, ← hbits, ← Nat.add_mod]
  rw [hpow] at hresult hfit ⊢
  have hlt : result.toNat + 2 ^ (7 * k) * bits.toNat < 2 ^ 32 := by
    have hdvd : 2 ^ 32 = 2 ^ (7 * k) * 2 ^ (32 - 7 * k) := by
      rw [← Nat.pow_add]
      congr 1
      omega
    rw [hdvd] at hfit ⊢
    have hle : bits.toNat + 1 ≤ 2 ^ (32 - 7 * k) := Nat.lt_of_mul_lt_mul_left hfit
    have hmul := Nat.mul_le_mul_left (2 ^ (7 * k)) hle
    rw [Nat.mul_add, Nat.mul_one] at hmul
    omega
  rw [UInt32.toNat_or, UInt32.toNat_shiftLeft, hpos, UInt8.toNat_toUInt32, Nat.shiftLeft_eq,
    Nat.mul_comm, Nat.mod_eq_of_lt hfit, Nat.or_comm, ← Nat.two_pow_add_eq_or_of_lt hresult,
    Nat.add_comm, Nat.mod_eq_of_lt hlt]

theorem and_7F_eq_zero_iff (b : UInt8) : b &&& 0x7F = 0 ↔ b.toNat % 128 = 0 := by
  rw [← UInt8.toNat_inj, toNat_and_7F]
  rfl

theorem shiftRight_31_ne_zero_iff (result : UInt32) : result >>> 31 ≠ 0 ↔ 2 ^ 31 ≤ result.toNat := by
  have hdiv : (result >>> 31).toNat = result.toNat / 2 ^ 31 := by
    rw [UInt32.toNat_shiftRight]
    exact Nat.shiftRight_eq_div_pow _ _
  rw [ne_eq, ← UInt32.toNat_inj, hdiv, UInt32.toNat_zero]
  omega

theorem validExtension_iff :
    validExtension (7 * k) result byte ↔
      byte.toNat % 128 = 0 ∨
        2 ^ 31 ≤ result.toNat ∧ byte.toNat = if k < 9 then 255 else 1 := by
  rw [validExtension, decide_eq_true_iff, and_7F_eq_zero_iff, shiftRight_31_ne_zero_iff]
  by_cases hk : k < 9
  · rw [if_pos (by omega), if_pos hk, ← UInt8.toNat_inj]
    rfl
  · rw [if_neg (by omega), if_neg hk, ← UInt8.toNat_inj]
    rfl

/-- From the sixth byte on no bit fits. -/
theorem next32_eq_self (hk : 5 ≤ k) : next32 k result byte = result := by
  have hfive : 128 ^ 5 = 2 ^ 32 * 8 := by decide
  have hpow : 128 ^ k = 2 ^ 32 * (8 * 128 ^ (k - 5)) := by
    rw [← Nat.mul_assoc, ← hfive, ← Nat.pow_add]
    congr 1
    omega
  apply UInt32.toNat_inj.mp
  rw [toNat_next32, hpow, Nat.mul_assoc, Nat.add_mul_mod_self_left]
  exact Nat.mod_eq_of_lt result.toNat_lt

/-- The byte is refused. -/
theorem decodeVarint32Loop_refused (h : ¬ Accepts32 k result byte) :
    decodeVarint32Loop (byte :: stream) (7 * k) result = .error .varintOverflow := by
  rw [Accepts32] at h
  rw [decodeVarint32Loop]
  by_cases hk : k = 4
  · rw [if_neg (by omega), if_pos (by omega), if_pos ?_]
    rw [and_70_ne_zero_iff, and_78_ne_iff]
    omega
  · rw [if_pos (by omega), if_pos ?_]
    by_cases hlong : 7 * k ≥ 64
    · exact Or.inl hlong
    · refine Or.inr fun hvalid => h (Or.inr (Or.inr ⟨by omega, by omega, ?_⟩))
      exact validExtension_iff.mp hvalid

/-- The byte is taken. -/
theorem decodeVarint32Loop_taken (h : Accepts32 k result byte)
    (hresult : k ≤ 4 → result.toNat < 128 ^ k) :
    decodeVarint32Loop (byte :: stream) (7 * k) result =
      if 128 ≤ byte.toNat then
        decodeVarint32Loop stream (7 * (k + 1)) (next32 k result byte)
      else .ok (next32 k result byte, stream) := by
  simp only [← and_80_ne_zero_iff]
  rw [decodeVarint32Loop]
  rcases h with hk | ⟨hk, hbyte⟩ | ⟨hge, hle, hbyte⟩
  · have hpow : 128 ^ k * 128 ≤ 128 ^ 4 := by
      rw [← Nat.pow_succ]
      exact Nat.pow_le_pow_right (by decide) hk
    have hmul : 128 ^ k * (byte.toNat % 128) ≤ 128 ^ k * 127 := Nat.mul_le_mul_left _ (by omega)
    rw [if_neg (by omega), if_neg (by omega)]
    show (if byte &&& 0x80 ≠ 0 then _ else _) = _
    rw [or_shift32 byte (by omega) (hresult (by omega)) (by rw [toNat_and_7F])
      (by rw [toNat_and_7F]; omega)]
    rfl
  · subst hk
    rw [if_neg (by omega), if_pos rfl, if_neg ?_]
    · show (if byte &&& 0x80 ≠ 0 then _ else _) = _
      rw [or_shift32 byte (by omega) (hresult (by omega))
        (by rw [toNat_and_0F]; omega) (by rw [toNat_and_0F]; omega)]
    · rw [and_70_ne_zero_iff, and_78_ne_iff]
      omega
  · rw [if_pos (by omega), if_neg ?_, next32_eq_self hge]
    · rfl
    · rintro (hlong | hvalid)
      · omega
      · exact hvalid (validExtension_iff.mpr hbyte)

theorem next32_lt (hresult : k ≤ 4 → result.toNat < 128 ^ k) :
    k + 1 ≤ 4 → (next32 k result byte).toNat < 128 ^ (k + 1) := by
  intro hk
  rw [toNat_next32]
  exact Nat.lt_of_le_of_lt (Nat.mod_le _ _) (result_lt (hresult (by omega)) byte.toNat)

/-- A stream without an end of the number is no number of 32 bits. -/
theorem decodeVarint32Loop_open (hopen : ∀ b ∈ stream, 128 ≤ b.toNat)
    (hresult : k ≤ 4 → result.toNat < 128 ^ k) :
    decodeVarint32Loop stream (7 * k) result ≠ .ok (r, rest) := by
  induction stream generalizing k result with
  | nil => exact nofun
  | cons byte stream ih =>
      obtain ⟨hbyte, hrest⟩ := List.forall_mem_cons.mp hopen
      by_cases haccepts : Accepts32 k result byte
      · rw [decodeVarint32Loop_taken haccepts hresult, if_pos hbyte]
        exact ih hrest (next32_lt hresult)
      · rw [decodeVarint32Loop_refused haccepts]
        exact nofun

/-- The groups above a byte leave room for it. -/
theorem group_fits {v : Nat} (hk : k ≤ 8) (h : 128 ^ (k + 1) * v < 2 ^ 64) (b : Nat) :
    128 ^ k * (b % 128 + 128 * v) < 2 ^ 64 := by
  have hdvd : 2 ^ 64 = 128 ^ (k + 1) * 2 ^ (64 - 7 * (k + 1)) := by
    rw [show (128 : Nat) = 2 ^ 7 by decide, ← Nat.pow_mul, ← Nat.pow_add]
    congr 1
    omega
  rw [hdvd] at h ⊢
  have hle : v + 1 ≤ 2 ^ (64 - 7 * (k + 1)) := Nat.lt_of_mul_lt_mul_left h
  have hlt : 128 ^ k * (b % 128 + 128 * v) < 128 ^ k * (128 * (v + 1)) :=
    Nat.mul_lt_mul_of_pos_left (by omega) (Nat.pow_pos (by decide))
  have hmul := Nat.mul_le_mul_left (128 ^ (k + 1)) hle
  rw [Nat.pow_succ] at hmul ⊢
  rw [← Nat.mul_assoc] at hlt
  exact Nat.lt_of_lt_of_le hlt hmul

/-- What the loop has taken when it returns, with `k` bytes before. -/
theorem decodeVarint32Loop_sound (hg : Groups g) (hresult : k ≤ 4 → result.toNat < 128 ^ k)
    {rest' : List UInt8} (h : decodeVarint32Loop (g ++ rest) (7 * k) result = .ok (r, rest')) :
    rest' = rest ∧ k + g.length ≤ 10 ∧ 128 ^ k * value128 g < 2 ^ 64 ∧
      r.toNat = (result.toNat + 128 ^ k * value128 g) % 2 ^ 32 := by
  induction hg generalizing k result with
  | @last byte hbyte =>
      rw [List.singleton_append] at h
      by_cases haccepts : Accepts32 k result byte
      · rw [decodeVarint32Loop_taken haccepts hresult, if_neg (by omega)] at h
        have hpair := Prod.mk.inj (Except.ok.inj h)
        have hvalue : value128 [byte] = byte.toNat % 128 := by
          rw [value128, value128]
          omega
        rw [← hpair.1, toNat_next32, hvalue]
        refine ⟨hpair.2.symm, ?_, ?_, rfl⟩
        · rw [List.length_singleton]
          rw [Accepts32] at haccepts
          omega
        · by_cases hk : k < 9
          · exact group_lt hk byte.toNat
          · rw [Accepts32, if_neg hk] at haccepts
            have hk9 : k = 9 := by omega
            subst hk9
            omega
      · rw [decodeVarint32Loop_refused haccepts] at h
        cases h
  | @more byte bs hbyte hbs ih =>
      rw [List.cons_append] at h
      by_cases haccepts : Accepts32 k result byte
      · rw [decodeVarint32Loop_taken haccepts hresult, if_pos hbyte] at h
        obtain ⟨hrest, hlen, hfits, hr⟩ := ih (next32_lt hresult) h
        have hbelow := group_fits (by have := List.length_pos_iff.mpr hbs.ne_nil; omega) hfits
          byte.toNat
        refine ⟨hrest, by rw [List.length_cons]; omega, hbelow, ?_⟩
        rw [hr, toNat_next32, value128, Nat.mod_add_mod, Nat.mul_add, Nat.pow_succ, Nat.mul_assoc,
          Nat.add_assoc]
      · rw [decodeVarint32Loop_refused haccepts] at h
        cases h

/-- What comes behind the form does not matter. -/
theorem decodeVarint32Loop_local (hg : Groups g) (hresult : k ≤ 4 → result.toNat < 128 ^ k)
    {rest' : List UInt8} (h : decodeVarint32Loop (g ++ rest) (7 * k) result = .ok (r, rest'))
    (s : List UInt8) : decodeVarint32Loop (g ++ s) (7 * k) result = .ok (r, s) := by
  induction hg generalizing k result with
  | @last byte hbyte =>
      rw [List.singleton_append] at h ⊢
      by_cases haccepts : Accepts32 k result byte
      · rw [decodeVarint32Loop_taken haccepts hresult, if_neg (by omega)] at h ⊢
        rw [(Prod.mk.inj (Except.ok.inj h)).1]
      · rw [decodeVarint32Loop_refused haccepts] at h
        exact absurd h nofun
  | @more byte bs hbyte hbs ih =>
      rw [List.cons_append] at h ⊢
      by_cases haccepts : Accepts32 k result byte
      · rw [decodeVarint32Loop_taken haccepts hresult, if_pos hbyte] at h ⊢
        exact ih (next32_lt hresult) h
      · rw [decodeVarint32Loop_refused haccepts] at h
        exact absurd h nofun

/-- A number that has 32 bits, or its extension by 1s. -/
def Extends32 (n : Nat) : Prop := n < 2 ^ 32 ∨ 2 ^ 64 - 2 ^ 31 ≤ n ∧ n < 2 ^ 64

/-- The next byte of such a number is taken: `v` is what is over it. -/
theorem accepts32_of_extends {v : Nat} (hk : k ≤ 9) (hlow : low < 128 ^ k)
    (hresult : result.toNat = low % 2 ^ 32) (hlast : byte.toNat < 128 → v = 0)
    (hend : k = 9 → byte.toNat < 128)
    (hextends : Extends32 (low + 128 ^ k * (byte.toNat % 128 + 128 * v))) :
    Accepts32 k result byte := by
  rw [Extends32] at hextends
  rw [Accepts32]
  by_cases hfour : k ≤ 4
  · by_cases hk4 : k = 4
    · subst hk4
      omega
    · omega
  · have hcases : k = 5 ∨ k = 6 ∨ k = 7 ∨ k = 8 ∨ k = 9 := by omega
    have hbyte := byte.toNat_lt
    rcases hcases with rfl | rfl | rfl | rfl | rfl
    all_goals
      simp only [Nat.reduceLT, Nat.lt_irrefl, ↓reduceIte]
      omega

/-- The loop takes the form of such a number, with `k` bytes of it before, which hold `low`. -/
theorem decodeVarint32Loop_complete (hg : Groups g) (hlow : low < 128 ^ k)
    (hresult : result.toNat = low % 2 ^ 32) (hlen : k + g.length ≤ 10)
    (hextends : Extends32 (low + 128 ^ k * value128 g)) :
    decodeVarint32Loop (g ++ rest) (7 * k) result =
      .ok (UInt32.ofNat (low + 128 ^ k * value128 g), rest) := by
  have hmod : ∀ b : UInt8, (next32 k result b).toNat = (low + 128 ^ k * (b.toNat % 128)) % 2 ^ 32 := by
    intro b
    rw [toNat_next32, hresult, Nat.mod_add_mod]
  have hfirst : k ≤ 4 → result.toNat < 128 ^ k := by
    intro _
    rw [hresult]
    exact Nat.lt_of_le_of_lt (Nat.mod_le _ _) hlow
  induction hg generalizing k low result with
  | @last byte hbyte =>
      rw [List.length_singleton] at hlen
      have haccepts : Accepts32 k result byte :=
        accepts32_of_extends (v := 0) (by omega) hlow hresult (fun _ => rfl) (fun _ => hbyte)
          hextends
      rw [List.singleton_append, decodeVarint32Loop_taken haccepts hfirst, if_neg (by omega)]
      congr 2
      apply UInt32.toNat_inj.mp
      rw [hmod, UInt32.toNat_ofNat', value128, value128, Nat.mul_zero, Nat.add_zero]
  | @more byte bs hbyte hbs ih =>
      rw [List.length_cons] at hlen
      have hpos := List.length_pos_iff.mpr hbs.ne_nil
      have haccepts : Accepts32 k result byte :=
        accepts32_of_extends (v := value128 bs) (by omega) hlow hresult (by omega) (by omega)
          hextends
      have hsum : low + 128 ^ k * value128 (byte :: bs) =
          low + 128 ^ k * (byte.toNat % 128) + 128 ^ (k + 1) * value128 bs := by
        rw [value128, Nat.mul_add, Nat.pow_succ, Nat.mul_assoc, Nat.add_assoc]
      rw [List.cons_append, decodeVarint32Loop_taken haccepts hfirst, if_pos hbyte, hsum]
      rw [hsum] at hextends
      exact ih (result_lt hlow byte.toNat) (hmod byte) (by omega) hextends
        (fun b => by rw [toNat_next32, hmod, Nat.mod_add_mod]) (next32_lt hfirst)

/-- The first byte is like the others. -/
theorem pbDecodeVarint32_eq (stream : List UInt8) :
    pbDecodeVarint32 stream = decodeVarint32Loop stream (7 * 0) 0 := by
  cases stream with
  | nil => rfl
  | cons byte stream =>
      have hnext : (next32 0 0 byte).toNat = byte.toNat % 128 := by
        rw [toNat_next32, UInt32.toNat_zero]
        omega
      rw [decodeVarint32Loop_taken (Or.inl (by decide)) fun _ => Nat.one_pos]
      show (if byte &&& 0x80 = 0 then _ else _) = _
      by_cases hmore : 128 ≤ byte.toNat
      · rw [if_neg ((and_80_ne_zero_iff byte).mpr hmore), if_pos hmore]
        congr 1
        apply UInt32.toNat_inj.mp
        rw [hnext, UInt8.toNat_toUInt32, toNat_and_7F]
      · rw [if_pos (not_not.mp (mt (and_80_ne_zero_iff byte).mp hmore)), if_neg hmore]
        congr 2
        apply UInt32.toNat_inj.mp
        rw [hnext, UInt8.toNat_toUInt32]
        omega

theorem first_lt : 0 ≤ 4 → (0 : UInt32).toNat < 128 ^ 0 := fun _ => Nat.one_pos

/-- The decoder of 32 bits takes forms only. -/
theorem pbDecodeVarint32_ok {rest' : List UInt8} (h : pbDecodeVarint32 stream = .ok (r, rest')) :
    ∃ g, Groups g ∧ stream = g ++ rest' ∧ g.length ≤ 10 ∧ value128 g < 2 ^ 64 ∧
      r.toNat = value128 g % 2 ^ 32 ∧ Takes pbDecodeVarint32 g r := by
  rw [pbDecodeVarint32_eq] at h
  rcases groups_or_open stream with ⟨g, rest, hg, rfl⟩ | hopen
  · have htakes := decodeVarint32Loop_local hg first_lt h
    obtain ⟨rfl, hlen, hfits, hr⟩ := decodeVarint32Loop_sound hg first_lt h
    rw [UInt32.toNat_zero, Nat.pow_zero, Nat.one_mul, Nat.zero_add] at hr
    rw [Nat.pow_zero, Nat.one_mul] at hfits
    exact ⟨g, hg, rfl, by omega, hfits, hr, fun s => by rw [pbDecodeVarint32_eq]; exact htakes s⟩
  · exact absurd h (decodeVarint32Loop_open hopen first_lt)

/-- The decoder of 32 bits gives the number of the one of 64, without the high half. -/
theorem pbDecodeVarint_of_32 (h : pbDecodeVarint32 stream = .ok (r, rest)) :
    ∃ value, pbDecodeVarint stream = .ok (value, rest) ∧ r = value.toUInt32 := by
  obtain ⟨g, hg, rfl, hlen, hfits, hr, -⟩ := pbDecodeVarint32_ok h
  refine ⟨UInt64.ofNat (value128 g), ?_, ?_⟩
  · rw [pbDecodeVarint_groups hg, if_pos ⟨hlen, hfits⟩]
  · apply UInt32.toNat_inj.mp
    rw [hr, UInt64.toNat_toUInt32, UInt64.toNat_ofNat', Nat.mod_eq_of_lt hfits]

/-- It takes every number that has 32 bits, or is the extension of one that is negative. -/
theorem pbDecodeVarint32_of_64 (h : pbDecodeVarint stream = .ok (value, rest))
    (hextends : Extends32 value.toNat) :
    pbDecodeVarint32 stream = .ok (value.toUInt32, rest) := by
  obtain ⟨g, hg, hlen, hvalue, rfl⟩ := pbDecodeVarint_ok_iff.mp h
  have hnone : 0 < 128 ^ 0 := Nat.one_pos
  rw [pbDecodeVarint32_eq, decodeVarint32Loop_complete hg hnone rfl (by omega)
    (by rw [Nat.pow_zero, Nat.one_mul, Nat.zero_add, hvalue]; exact hextends),
    Nat.pow_zero, Nat.one_mul, Nat.zero_add, hvalue]
  congr 2

/-- The two decoders agree: on what the one of 32 bits takes, and on every number that has 32
bits, or is the extension of one that is negative. -/
theorem varint32_agrees (stream rest : List UInt8) :
    (∀ r, pbDecodeVarint32 stream = .ok (r, rest) →
      ∃ value, pbDecodeVarint stream = .ok (value, rest) ∧ r = value.toUInt32) ∧
    ∀ value, pbDecodeVarint stream = .ok (value, rest) → Extends32 value.toNat →
      pbDecodeVarint32 stream = .ok (value.toUInt32, rest) :=
  ⟨fun _ => pbDecodeVarint_of_32, fun _ => pbDecodeVarint32_of_64⟩

theorem pbDecodeVarint32_varintBytes {value : UInt64} (h : value.toNat < 2 ^ 32)
    (rest : List UInt8) :
    pbDecodeVarint32 (varintBytes value ++ rest) = .ok (value.toUInt32, rest) :=
  pbDecodeVarint32_of_64 (pbDecodeVarint_varintBytes value rest) (Or.inl h)

end Decoder32

/-! ### Signed numbers -/

/-- The number that `pb_decode_svarint` gives for the one on the wire. -/
def unzigzagged (value : UInt64) : UInt64 :=
  if value &&& 1 ≠ 0 then ~~~(value >>> 1) else value >>> 1

theorem toInt64_neg_iff (value : UInt64) : value.toInt64 < 0 ↔ 2 ^ 63 ≤ value.toNat := by
  rw [Int64.lt_iff_toInt_lt, ← Int64.toInt_toBitVec, UInt64.toBitVec_toInt64]
  show value.toBitVec.toInt < 0 ↔ _
  rw [BitVec.toInt_neg_iff]
  show 2 ^ 64 ≤ 2 * value.toNat ↔ _
  omega

/-- Twice the number, or twice the distance of a negative one from -1, and 1. -/
theorem toNat_zigzagged (value : UInt64) :
    (zigzagged value).toNat =
      if 2 ^ 63 ≤ value.toNat then 2 * (2 ^ 64 - 1 - value.toNat) + 1 else 2 * value.toNat := by
  have hlt := value.toNat_lt
  have hdouble : ∀ x : UInt64, (x <<< 1).toNat = x.toNat * 2 % 2 ^ 64 := by
    intro x
    rw [UInt64.toNat_shiftLeft]
    show x.toNat <<< 1 % 2 ^ 64 = _
    rw [Nat.shiftLeft_eq]
  have hmask : (value &&& ((0xFFFFFFFFFFFFFFFF : UInt64) >>> 1)).toNat = value.toNat % 2 ^ 63 := by
    rw [UInt64.toNat_and]
    exact Nat.and_two_pow_sub_one_eq_mod value.toNat 63
  rw [zigzagged]
  by_cases hneg : 2 ^ 63 ≤ value.toNat
  · show (if value.toInt64 < 0 then _ else _ : UInt64).toNat = _
    rw [if_pos ((toInt64_neg_iff value).mpr hneg), if_pos hneg, UInt64.toNat_not, hdouble, hmask]
    show 2 ^ 64 - 1 - _ = _
    omega
  · show (if value.toInt64 < 0 then _ else _ : UInt64).toNat = _
    rw [if_neg (mt (toInt64_neg_iff value).mp hneg), if_neg hneg, hdouble]
    omega

theorem unzigzagged_zigzagged (value : UInt64) : unzigzagged (zigzagged value) = value := by
  have hlt := value.toNat_lt
  have hhalf : (zigzagged value >>> 1).toNat = (zigzagged value).toNat / 2 := by
    rw [UInt64.toNat_shiftRight]
    exact Nat.shiftRight_eq_div_pow _ _
  have hodd : zigzagged value &&& 1 ≠ 0 ↔ (zigzagged value).toNat % 2 = 1 := by
    rw [ne_eq, ← UInt64.toNat_inj, UInt64.toNat_and]
    show ¬ (zigzagged value).toNat &&& 1 = 0 ↔ _
    rw [Nat.and_one_is_mod]
    omega
  rw [toNat_zigzagged] at hhalf hodd
  apply UInt64.toNat_inj.mp
  rw [unzigzagged]
  by_cases hneg : 2 ^ 63 ≤ value.toNat
  · rw [if_pos hneg] at hhalf hodd
    rw [if_pos (hodd.mpr (by omega)), UInt64.toNat_not, hhalf]
    show 2 ^ 64 - 1 - _ = _
    omega
  · rw [if_neg hneg] at hhalf hodd
    rw [if_neg (mt hodd.mp (by omega)), hhalf]
    omega

/-- A signed number comes back. One that is near to 0 has few bytes, also when it is negative. -/
theorem svarint_roundTrip (value : Int64) :
    Takes pbDecodeSvarint (varintBytes (zigzagged value.toUInt64)) value ∧
      ∀ k, - 2 ^ (7 * k + 6) ≤ value.toInt ∧ value.toInt < 2 ^ (7 * k + 6) →
        (varintBytes (zigzagged value.toUInt64)).length ≤ k + 1 := by
  constructor
  · intro rest
    have h := unzigzagged_zigzagged value.toUInt64
    rw [pbDecodeSvarint, pbDecodeVarint_varintBytes]
    show Except.ok ((unzigzagged (zigzagged value.toUInt64)).toInt64, rest) = _
    rw [h, Int64.toInt64_toUInt64]
  · rintro k ⟨hge, hlt⟩
    have hpow : 128 ^ (k + 1) = 2 * 2 ^ (7 * k + 6) := by
      rw [show (128 : Nat) = 2 ^ 7 by decide, ← Nat.pow_mul, ← Nat.pow_succ']
      congr 1
    have hcast : ((2 ^ (7 * k + 6) : Nat) : Int) = 2 ^ (7 * k + 6) := by
      rw [Int.natCast_pow]
      rfl
    have hbits : value.toInt =
        if 2 * value.toUInt64.toNat < 2 ^ 64 then (value.toUInt64.toNat : Int)
        else (value.toUInt64.toNat : Int) - ((2 ^ 64 : Nat) : Int) := by
      rw [← Int64.toInt_toBitVec, BitVec.toInt_eq_toNat_cond]
      rfl
    rw [varintBytes_eq]
    apply length_encode128_le_of_lt
    rw [toNat_zigzagged, hpow]
    rw [hbits, ← hcast] at hge hlt
    have hmax := value.toUInt64.toNat_lt
    by_cases hneg : 2 ^ 63 ≤ value.toUInt64.toNat
    · rw [if_neg (by omega)] at hge hlt
      rw [if_pos hneg]
      omega
    · rw [if_pos (by omega)] at hge hlt
      rw [if_neg hneg]
      omega

end ACoral
