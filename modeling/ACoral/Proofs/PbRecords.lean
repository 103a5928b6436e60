import ACoral.Kernel.PbDecode
import ACoral.Lib.Base128
import ACoral.Lib.Reader
import ACoral.Proofs.PbFields
import ACoral.Proofs.PbVarint

/-!
# `ACoral.Proofs.PbRecords`: the grammar of what `pb_decode` accepts

A message on the wire is a list of records, each of them a tag and what comes after it.

* `Payload` says what can come after a tag of each wire type, and `Record` what a record does to
  the values of a message.
* `pbDecode_ok_iff`: `pb_decode` accepts the lists of records, and nothing else. Its values are
  those that the records give one after the other.
-/

set_option autoImplicit false

namespace ACoral

open Lib

variable {fields : PbMsgdesc} {values values' : List UInt64} {stream rest p t : List UInt8}
  {wireType tag n i : Nat}

/-! ### What comes after a tag -/

/-- A string, with its length before it. -/
def IsString (p : List UInt8) : Prop :=
  ∃ t q, ∃ n : UInt32, Takes pbDecodeVarint32 t n ∧ q.length = n.toNat ∧ p = t ++ q

/-- The bytes after a tag with this wire type. -/
def Payload (wireType : PbWireType) (p : List UInt8) : Prop :=
  wireType = PB_WT_VARINT ∧ Groups p ∨ wireType = PB_WT_64BIT ∧ p.length = 8 ∨
    wireType = PB_WT_STRING ∧ IsString p ∨ wireType = PB_WT_32BIT ∧ p.length = 4

theorem pbRead_ok_iff : pbRead n stream = .ok (p, rest) ↔ p.length = n ∧ stream = p ++ rest := by
  rw [pbRead]
  by_cases hzero : n = 0
  · rw [if_pos hzero, hzero, List.length_eq_zero_iff]
    constructor
    · intro h
      have hpair := Prod.mk.inj (Except.ok.inj h)
      exact ⟨hpair.1.symm, by rw [← hpair.1, hpair.2, List.nil_append]⟩
    · rintro ⟨rfl, rfl⟩
      rfl
  · rw [if_neg hzero]
    constructor
    · intro h
      split at h
      · exact absurd h nofun
      · rename_i hlen
        have hpair := Prod.mk.inj (Except.ok.inj h)
        exact ⟨by rw [← hpair.1, List.length_take]; omega,
          by rw [← hpair.1, ← hpair.2, List.take_append_drop]⟩
    · rintro ⟨rfl, rfl⟩
      rw [if_neg (by rw [List.length_append]; omega), List.take_left, List.drop_left]

theorem pbRead_map_ok_iff :
    (pbRead n stream).map Prod.snd = .ok rest ↔ ∃ p, p.length = n ∧ stream = p ++ rest := by
  rw [except_map_eq_ok]
  constructor
  · rintro ⟨⟨p, rest'⟩, h, rfl⟩
    exact ⟨p, pbRead_ok_iff.mp h⟩
  · rintro ⟨p, h⟩
    exact ⟨(p, rest), pbRead_ok_iff.mpr h, rfl⟩

theorem pbSkipVarint_ok_iff :
    pbSkipVarint stream = .ok rest ↔ ∃ p, Groups p ∧ stream = p ++ rest := by
  constructor
  · intro h
    induction stream with
    | nil => exact absurd h nofun
    | cons byte stream ih =>
        rw [pbSkipVarint] at h
        by_cases hmore : 128 ≤ byte.toNat
        · rw [if_pos ((and_80_ne_zero_iff byte).mpr hmore)] at h
          obtain ⟨p, hp, rfl⟩ := ih h
          exact ⟨byte :: p, .more hmore hp, rfl⟩
        · rw [if_neg (mt (and_80_ne_zero_iff byte).mp hmore)] at h
          exact ⟨[byte], .last (by omega), congrArg _ (Except.ok.inj h)⟩
  · rintro ⟨p, hp, rfl⟩
    induction hp with
    | @last byte hbyte =>
        rw [List.singleton_append, pbSkipVarint,
          if_neg fun h => absurd ((and_80_ne_zero_iff byte).mp h) (by omega)]
    | @more byte bs hbyte _ ih =>
        rw [List.cons_append, pbSkipVarint, if_pos ((and_80_ne_zero_iff byte).mpr hbyte)]
        exact ih

theorem readRawVarint_ok_iff :
    readRawVarint n stream = .ok rest ↔ ∃ p, Groups p ∧ p.length ≤ n ∧ stream = p ++ rest := by
  constructor
  · intro h
    induction n generalizing stream with
    | zero => exact absurd h nofun
    | succ n ih =>
        cases stream with
        | nil => exact absurd h nofun
        | cons byte stream =>
            rw [readRawVarint] at h
            by_cases hmore : 128 ≤ byte.toNat
            · rw [if_pos ((and_80_ne_zero_iff byte).mpr hmore)] at h
              obtain ⟨p, hp, hlen, rfl⟩ := ih h
              exact ⟨byte :: p, .more hmore hp, Nat.succ_le_succ hlen, rfl⟩
            · rw [if_neg (mt (and_80_ne_zero_iff byte).mp hmore)] at h
              exact ⟨[byte], .last (by omega), Nat.le_add_left _ _, congrArg _ (Except.ok.inj h)⟩
  · rintro ⟨p, hp, hlen, rfl⟩
    induction hp generalizing n with
    | @last byte hbyte =>
        obtain ⟨m, rfl⟩ := Nat.exists_eq_succ_of_ne_zero (Nat.pos_iff_ne_zero.mp hlen)
        rw [List.singleton_append, readRawVarint,
          if_neg fun h => absurd ((and_80_ne_zero_iff byte).mp h) (by omega)]
    | @more byte bs hbyte _ ih =>
        rw [List.length_cons] at hlen
        obtain ⟨m, rfl⟩ := Nat.exists_eq_succ_of_ne_zero (show n ≠ 0 by omega)
        rw [List.cons_append, readRawVarint, if_pos ((and_80_ne_zero_iff byte).mpr hbyte)]
        exact ih (by omega)

/-- The decoder of 32 bits looks at nothing behind the number. -/
theorem exact_pbDecodeVarint32 : Exact pbDecodeVarint32 := by
  intro stream n rest h
  obtain ⟨g, -, heq, -, -, -, htakes⟩ := pbDecodeVarint32_ok h
  exact ⟨g, htakes, heq⟩

theorem pbSkipString_ok_iff :
    pbSkipString stream = .ok rest ↔ ∃ p, IsString p ∧ stream = p ++ rest := by
  rw [pbSkipString, except_bind_eq_ok]
  constructor
  · rintro ⟨⟨n, rest'⟩, h, hread⟩
    obtain ⟨t, ht, rfl⟩ := exact_pbDecodeVarint32.ok_iff.mp h
    obtain ⟨q, hq, rfl⟩ := pbRead_map_ok_iff.mp hread
    exact ⟨t ++ q, ⟨t, q, n, ht, hq, rfl⟩, by rw [List.append_assoc]⟩
  · rintro ⟨p, ⟨t, q, n, ht, hq, rfl⟩, rfl⟩
    exact ⟨(n, q ++ rest), by rw [List.append_assoc]; exact ht (q ++ rest),
      pbRead_map_ok_iff.mpr ⟨q, hq, rfl⟩⟩

theorem pbMakeStringSubstream_ok_iff :
    pbMakeStringSubstream stream = .ok (p, rest) ↔
      ∃ t, ∃ n : UInt32, Takes pbDecodeVarint32 t n ∧ p.length = n.toNat ∧
        stream = t ++ (p ++ rest) := by
  rw [pbMakeStringSubstream, except_bind_eq_ok]
  constructor
  · rintro ⟨⟨n, rest'⟩, h, hpart⟩
    obtain ⟨t, ht, rfl⟩ := exact_pbDecodeVarint32.ok_iff.mp h
    dsimp only at hpart
    split at hpart
    · exact absurd hpart nofun
    · rename_i hlen
      have hpair := Prod.mk.inj (Except.ok.inj hpart)
      exact ⟨t, n, ht, by rw [← hpair.1, List.length_take]; omega,
        by rw [← hpair.1, ← hpair.2, List.take_append_drop]⟩
  · rintro ⟨t, n, ht, hn, rfl⟩
    refine ⟨(n, p ++ rest), ht (p ++ rest), ?_⟩
    show (if _ then _ else _) = _
    rw [← hn, if_neg (by rw [List.length_append]; omega), List.take_left, List.drop_left]

/-- What is skipped is what can come after the tag. -/
theorem pbSkipField_ok_iff :
    pbSkipField wireType stream = .ok rest ↔ ∃ p, Payload wireType p ∧ stream = p ++ rest := by
  rw [pbSkipField]
  by_cases h0 : wireType = PB_WT_VARINT
  · rw [if_pos h0, pbSkipVarint_ok_iff]
    simp [Payload, h0, PB_WT_VARINT, PB_WT_64BIT, PB_WT_STRING, PB_WT_32BIT]
  rw [if_neg h0]
  by_cases h1 : wireType = PB_WT_64BIT
  · rw [if_pos h1, pbRead_map_ok_iff]
    simp [Payload, h1, PB_WT_VARINT, PB_WT_64BIT, PB_WT_STRING, PB_WT_32BIT]
  rw [if_neg h1]
  by_cases h2 : wireType = PB_WT_STRING
  · rw [if_pos h2, pbSkipString_ok_iff]
    simp [Payload, h2, PB_WT_VARINT, PB_WT_64BIT, PB_WT_STRING, PB_WT_32BIT]
  rw [if_neg h2]
  by_cases h5 : wireType = PB_WT_32BIT
  · rw [if_pos h5, pbRead_map_ok_iff]
    simp [Payload, h5, PB_WT_VARINT, PB_WT_64BIT, PB_WT_STRING, PB_WT_32BIT]
  · rw [if_neg h5]
    simp [Payload, h0, h1, h2, h5]

/-- A string with a callback that is not set is closed unread. Any other value is read, and
thrown away; a number has ten bytes at most. -/
theorem decodeCallbackField_ok_iff :
    decodeCallbackField wireType stream = .ok rest ↔
      ∃ p, Payload wireType p ∧ (wireType = PB_WT_VARINT → p.length ≤ 10) ∧ stream = p ++ rest := by
  have hstring : (pbMakeStringSubstream stream).map Prod.snd = .ok rest ↔
      ∃ p, IsString p ∧ stream = p ++ rest := by
    rw [except_map_eq_ok]
    constructor
    · rintro ⟨⟨q, rest'⟩, h, rfl⟩
      obtain ⟨t, n, ht, hq, rfl⟩ := pbMakeStringSubstream_ok_iff.mp h
      exact ⟨t ++ q, ⟨t, q, n, ht, hq, rfl⟩, by rw [List.append_assoc]⟩
    · rintro ⟨p, ⟨t, q, n, ht, hq, rfl⟩, rfl⟩
      exact ⟨(q, rest), pbMakeStringSubstream_ok_iff.mpr ⟨t, n, ht, hq, by rw [List.append_assoc]⟩,
        rfl⟩
  rw [decodeCallbackField]
  by_cases h2 : wireType = PB_WT_STRING
  · rw [if_pos h2, hstring]
    simp [Payload, h2, PB_WT_VARINT, PB_WT_64BIT, PB_WT_STRING, PB_WT_32BIT]
  rw [if_neg h2]
  by_cases h0 : wireType = PB_WT_VARINT
  · rw [if_pos h0, readRawVarint_ok_iff]
    simp [Payload, h0, PB_WT_VARINT, PB_WT_64BIT, PB_WT_STRING, PB_WT_32BIT]
  rw [if_neg h0]
  by_cases h1 : wireType = PB_WT_64BIT
  · rw [if_pos h1, pbRead_map_ok_iff]
    simp [Payload, h1, PB_WT_VARINT, PB_WT_64BIT, PB_WT_STRING, PB_WT_32BIT]
  rw [if_neg h1]
  by_cases h5 : wireType = PB_WT_32BIT
  · rw [if_pos h5, pbRead_map_ok_iff]
    simp [Payload, h5, PB_WT_VARINT, PB_WT_64BIT, PB_WT_STRING, PB_WT_32BIT]
  · rw [if_neg h5]
    simp [Payload, h0, h1, h2, h5]

theorem exact_pbDecodeVarint : Exact pbDecodeVarint := by
  intro stream value rest h
  obtain ⟨g, hg, hlen, hvalue, rfl⟩ := pbDecodeVarint_ok_iff.mp h
  exact ⟨g, fun _ => pbDecodeVarint_ok_iff.mpr ⟨g, hg, hlen, hvalue, rfl⟩, rfl⟩

/-- The clamped value is the value when it is one of the field. -/
theorem clamped_eq_iff {kind : PbKind} (hkind : kind ≠ .callback) (value : UInt64) :
    (if kind = .uint64 then value else value.toUInt32.toUInt64) = value ↔ kind.Fits value := by
  cases kind with
  | uint32 =>
      rw [if_neg (by decide), ← UInt64.toNat_inj, UInt32.toNat_toUInt64, UInt64.toNat_toUInt32]
      show _ ↔ value.toNat < 2 ^ 32
      omega
  | uint64 =>
      rw [if_pos rfl]
      exact ⟨fun _ => trivial, fun _ => rfl⟩
  | callback => exact absurd rfl hkind

/-- A number is taken when it is a value of the field. -/
theorem decodeStaticField_ok_iff {kind : PbKind} {value : UInt64} (hkind : kind ≠ .callback) :
    decodeStaticField kind wireType stream = .ok (value, rest) ↔
      wireType = PB_WT_VARINT ∧
        ∃ p, Takes pbDecodeVarint p value ∧ kind.Fits value ∧ stream = p ++ rest := by
  rw [decodeStaticField]
  by_cases h0 : wireType = PB_WT_VARINT
  · rw [if_neg (not_not.mpr h0), except_bind_eq_ok]
    constructor
    · rintro ⟨⟨value', rest'⟩, h, hclamped⟩
      obtain ⟨p, hp, rfl⟩ := exact_pbDecodeVarint.ok_iff.mp h
      refine ⟨h0, ?_⟩
      dsimp only at hclamped
      by_cases hsame : (if kind = .uint64 then value' else value'.toUInt32.toUInt64) = value'
      · rw [if_neg (not_not.mpr hsame), hsame] at hclamped
        have hpair := Prod.mk.inj (Except.ok.inj hclamped)
        exact ⟨p, hpair.1 ▸ hp, hpair.1 ▸ (clamped_eq_iff hkind value').mp hsame,
          by rw [hpair.2]⟩
      · rw [if_pos hsame] at hclamped
        exact absurd hclamped nofun
    · rintro ⟨-, p, hp, hfits, rfl⟩
      refine ⟨(value, rest), hp rest, ?_⟩
      have hsame := (clamped_eq_iff hkind value).mpr hfits
      show (if (if kind = .uint64 then value else value.toUInt32.toUInt64) ≠ value then _ else _) = _
      rw [if_neg (not_not.mpr hsame)]
      show Except.ok (_, _) = _
      rw [hsame]
  · rw [if_pos h0]
    exact ⟨nofun, fun h => absurd h.1 h0⟩

/-! ### Records -/

/-- The bytes of a tag. -/
def IsTag (wireType : PbWireType) (tag : Nat) (t : List UInt8) : Prop :=
  ∃ n : UInt32, Takes pbDecodeVarint32 t n ∧ n.toNat % 8 = wireType ∧ n.toNat / 8 = tag

theorem pbDecodeTag_ok_iff :
    pbDecodeTag stream = .ok (wireType, tag, rest) ↔
      ∃ t, IsTag wireType tag t ∧ stream = t ++ rest := by
  have hlow : ∀ n : UInt32, (n &&& 7).toNat = n.toNat % 8 := fun n => by
    rw [UInt32.toNat_and]
    exact Nat.and_two_pow_sub_one_eq_mod n.toNat 3
  have hhigh : ∀ n : UInt32, (n >>> 3).toNat = n.toNat / 8 := fun n => by
    rw [UInt32.toNat_shiftRight]
    exact Nat.shiftRight_eq_div_pow _ _
  rw [pbDecodeTag, except_map_eq_ok]
  constructor
  · rintro ⟨⟨n, rest'⟩, h, heq⟩
    obtain ⟨t, ht, rfl⟩ := exact_pbDecodeVarint32.ok_iff.mp h
    simp only [hlow, hhigh, Prod.mk.injEq] at heq
    exact ⟨t, ⟨n, ht, heq.1, heq.2.1⟩, by rw [heq.2.2]⟩
  · rintro ⟨t, ⟨n, ht, hwt, htag⟩, rfl⟩
    refine ⟨(n, rest), ht rest, ?_⟩
    simp only [hlow, hhigh, hwt, htag]

theorem IsTag.ne_nil (h : IsTag wireType tag t) : t ≠ [] := by
  obtain ⟨n, hn, -⟩ := h
  rintro rfl
  exact absurd (hn []) nofun

/-- What a record does to the values of a message. A field with a callback that is not set, and
one that the message does not have, leave them. -/
inductive Record (fields : PbMsgdesc) (values : List UInt64) : List UInt8 → List UInt64 → Prop
  | number {i tag : Nat} {kind : PbKind} {t p : List UInt8} {value : UInt64} :
      fields[i]? = some ⟨tag, kind⟩ → kind ≠ .callback → IsTag PB_WT_VARINT tag t →
      Takes pbDecodeVarint p value → kind.Fits value → Record fields values (t ++ p) (values.set i value)
  | callback {i tag wireType : Nat} {t p : List UInt8} :
      fields[i]? = some ⟨tag, .callback⟩ → IsTag wireType tag t → Payload wireType p →
      (wireType = PB_WT_VARINT → p.length ≤ 10) → Record fields values (t ++ p) values
  | unknown {tag wireType : Nat} {t p : List UInt8} :
      (∀ f ∈ fields, f.tag ≠ tag) → tag ≠ 0 → IsTag wireType tag t → Payload wireType p →
      Record fields values (t ++ p) values

/-- Records one after the other. -/
inductive Records (fields : PbMsgdesc) : List UInt64 → List UInt8 → List UInt64 → Prop
  | nil {values : List UInt64} : Records fields values [] values
  | cons {values values' values'' : List UInt64} {b bs : List UInt8} :
      Record fields values b values' → Records fields values' bs values'' →
      Records fields values (b ++ bs) values''

theorem Record.ne_nil {b : List UInt8} (h : Record fields values b values') : b ≠ [] := by
  cases h with
  | number _ _ ht _ _ => exact List.append_ne_nil_of_left_ne_nil ht.ne_nil _
  | callback _ ht _ _ => exact List.append_ne_nil_of_left_ne_nil ht.ne_nil _
  | unknown _ _ ht _ => exact List.append_ne_nil_of_left_ne_nil ht.ne_nil _

theorem tagAt_of_getElem? {f : PbField} (h : fields[i]? = some f) :
    i < fields.length ∧ fields.tagAt i = f.tag ∧ f ∈ fields := by
  obtain ⟨hi, hf⟩ := List.getElem?_eq_some_iff.mp h
  exact ⟨hi, by rw [tagAt_eq hi, hf], hf ▸ List.getElem_mem hi⟩

theorem tagAt_ne (hnone : ∀ f ∈ fields, f.tag ≠ tag) : ∀ i < fields.length, fields.tagAt i ≠ tag := by
  intro i hi
  rw [tagAt_eq hi]
  exact hnone _ (List.getElem_mem hi)

/-- A round of the loop on a stream that is not at its end. -/
theorem pbDecodeLoop_succ (rounds : Nat) (iter : PbFieldIter) (values : List UInt64)
    (hne : stream ≠ []) :
    pbDecodeLoop fields (rounds + 1) iter values stream =
      (pbDecodeTag stream).bind fun (wireType, tag, stream) =>
        if tag = 0 then .error .zeroTag
        else if (pbFieldIterFind fields iter tag).1 then
          (decodeField fields (pbFieldIterFind fields iter tag).2.index wireType values stream).bind
            fun (values, stream) =>
              pbDecodeLoop fields rounds (pbFieldIterFind fields iter tag).2 values stream
        else
          (pbSkipField wireType stream).bind fun stream =>
            pbDecodeLoop fields rounds (pbFieldIterFind fields iter tag).2 values stream := by
  rw [pbDecodeLoop, if_neg hne]

theorem decodeField_callback (h : fields[i]? = some ⟨tag, .callback⟩) :
    decodeField fields i wireType values stream =
      (decodeCallbackField wireType stream).map fun stream => (values, stream) := by
  rw [decodeField, h]
  rfl

theorem decodeField_number {kind : PbKind} (h : fields[i]? = some ⟨tag, kind⟩)
    (hkind : kind ≠ .callback) :
    decodeField fields i wireType values stream =
      (decodeStaticField kind wireType stream).map fun (value, stream) =>
        (values.set i value, stream) := by
  rw [decodeField, h]
  cases kind with
  | uint32 => rfl
  | uint64 => rfl
  | callback => exact absurd rfl hkind

/-- A round takes a record, and goes on with its values from the position of some field. -/
theorem pbDecodeLoop_record (hwf : fields.WellFormed) (hi : i < fields.length) {b : List UInt8}
    (h : Record fields values b values') :
    ∃ j < fields.length, ∀ rounds stream,
      pbDecodeLoop fields (rounds + 1) (fields.load i) values (b ++ stream) =
        pbDecodeLoop fields rounds (fields.load j) values' stream := by
  have hne : ∀ stream, b ++ stream ≠ [] := fun _ => List.append_ne_nil_of_left_ne_nil h.ne_nil _
  cases h with
  | @number p tag kind t q value hfield hkind ht hq hfits =>
      obtain ⟨hp, htag, hmem⟩ := tagAt_of_getElem? hfield
      refine ⟨p, hp, fun rounds stream => ?_⟩
      have hfind := pbFieldIterFind_found hwf hi hp
      rw [htag] at hfind
      have hread : decodeStaticField kind PB_WT_VARINT (q ++ stream) = .ok (value, stream) :=
        (decodeStaticField_ok_iff hkind).mpr ⟨rfl, q, hq, hfits, rfl⟩
      rw [pbDecodeLoop_succ rounds _ _ (hne stream), List.append_assoc,
        pbDecodeTag_ok_iff.mpr ⟨t, ht, rfl⟩]
      show (if tag = 0 then _ else _) = _
      rw [if_neg (Nat.pos_iff_ne_zero.mp (hwf.bounds _ hmem).1), hfind]
      show (decodeField fields p PB_WT_VARINT values (q ++ stream)).bind _ = _
      rw [decodeField_number hfield hkind, hread]
      rfl
  | @callback p tag wireType t q hfield ht hq hlen =>
      obtain ⟨hp, htag, hmem⟩ := tagAt_of_getElem? hfield
      refine ⟨p, hp, fun rounds stream => ?_⟩
      have hfind := pbFieldIterFind_found hwf hi hp
      rw [htag] at hfind
      have hread : decodeCallbackField wireType (q ++ stream) = .ok stream :=
        decodeCallbackField_ok_iff.mpr ⟨q, hq, hlen, rfl⟩
      rw [pbDecodeLoop_succ rounds _ _ (hne stream), List.append_assoc,
        pbDecodeTag_ok_iff.mpr ⟨t, ht, rfl⟩]
      show (if tag = 0 then _ else _) = _
      rw [if_neg (Nat.pos_iff_ne_zero.mp (hwf.bounds _ hmem).1), hfind]
      show (decodeField fields p wireType values (q ++ stream)).bind _ = _
      rw [decodeField_callback hfield, hread]
      rfl
  | @unknown tag wireType t q hnone hzero ht hq =>
      refine ⟨i, hi, fun rounds stream => ?_⟩
      rw [pbDecodeLoop_succ rounds _ _ (hne stream), List.append_assoc,
        pbDecodeTag_ok_iff.mpr ⟨t, ht, rfl⟩]
      show (if tag = 0 then _ else _) = _
      rw [if_neg hzero, pbFieldIterFind_missing hi (tagAt_ne hnone)]
      show (pbSkipField wireType (q ++ stream)).bind _ = _
      rw [pbSkipField_ok_iff.mpr ⟨q, hq, rfl⟩]
      rfl

/-- What a round takes is a record. -/
theorem record_of_pbDecodeLoop (hwf : fields.WellFormed) (hi : i < fields.length)
    (hne : stream ≠ []) {rounds : Nat} {final : List UInt64}
    (h : pbDecodeLoop fields (rounds + 1) (fields.load i) values stream = .ok final) :
    ∃ b rest values', Record fields values b values' ∧ stream = b ++ rest ∧
      ∃ j < fields.length, pbDecodeLoop fields rounds (fields.load j) values' rest = .ok final := by
  rw [pbDecodeLoop_succ rounds _ _ hne, except_bind_eq_ok] at h
  obtain ⟨⟨wireType, tag, rest⟩, htag, h⟩ := h
  obtain ⟨t, ht, rfl⟩ := pbDecodeTag_ok_iff.mp htag
  dsimp only at h
  by_cases hzero : tag = 0
  · rw [if_pos hzero] at h
    exact absurd h nofun
  rw [if_neg hzero] at h
  by_cases hnone : ∀ f ∈ fields, f.tag ≠ tag
  · rw [pbFieldIterFind_missing hi (tagAt_ne hnone)] at h
    obtain ⟨rest', hskip, hloop⟩ := except_bind_eq_ok.mp h
    obtain ⟨q, hq, rfl⟩ := pbSkipField_ok_iff.mp hskip
    exact ⟨t ++ q, rest', values, .unknown hnone hzero ht hq, by rw [List.append_assoc], i, hi,
      hloop⟩
  · push Not at hnone
    obtain ⟨⟨tag', kind⟩, hmem, htag'⟩ := hnone
    obtain ⟨p, hfield⟩ := List.getElem?_of_mem hmem
    obtain ⟨hp, heq, -⟩ := tagAt_of_getElem? hfield
    have heq : fields.tagAt p = tag := heq.trans htag'
    rw [← heq, pbFieldIterFind_found hwf hi hp] at h
    have hfield : fields[p]? = some ⟨tag, kind⟩ := by rw [hfield, ← htag']
    obtain ⟨⟨values', rest'⟩, hread, hloop⟩ := except_bind_eq_ok.mp h
    by_cases hkind : kind = .callback
    · subst hkind
      rw [show (fields.load p).index = p from rfl, decodeField_callback hfield] at hread
      obtain ⟨rest₁, hskip, hpair⟩ := except_map_eq_ok.mp hread
      obtain ⟨q, hq, hlen, rfl⟩ := decodeCallbackField_ok_iff.mp hskip
      cases hpair
      exact ⟨t ++ q, _, _, .callback hfield ht hq hlen, by rw [List.append_assoc], p, hp, hloop⟩
    · rw [show (fields.load p).index = p from rfl, decodeField_number hfield hkind] at hread
      obtain ⟨⟨value, rest₁⟩, hstatic, hpair⟩ := except_map_eq_ok.mp hread
      obtain ⟨hwt, q, hq, hfits, rfl⟩ := (decodeStaticField_ok_iff hkind).mp hstatic
      cases hpair
      subst hwt
      exact ⟨t ++ q, _, _, .number hfield hkind ht hq hfits, by rw [List.append_assoc], p, hp,
        hloop⟩

/-- The loop accepts the lists of records. -/
theorem pbDecodeLoop_ok_iff (hwf : fields.WellFormed) (hi : i < fields.length) {rounds : Nat}
    (hrounds : stream.length ≤ rounds) :
    pbDecodeLoop fields rounds (fields.load i) values stream = .ok values' ↔
      Records fields values stream values' := by
  have hend : ∀ rounds j, pbDecodeLoop fields rounds (fields.load j) values' [] = .ok values' := by
    intro rounds j
    cases rounds with
    | zero => rfl
    | succ rounds => rw [pbDecodeLoop, if_pos rfl]
  constructor
  · intro h
    induction rounds generalizing i values stream with
    | zero =>
        have hnil := List.length_eq_zero_iff.mp (Nat.le_zero.mp hrounds)
        rw [hnil, ← Except.ok.inj h]
        exact .nil
    | succ rounds ih =>
        by_cases hne : stream = []
        · rw [pbDecodeLoop, if_pos hne] at h
          rw [hne, ← Except.ok.inj h]
          exact .nil
        · obtain ⟨b, rest, values₁, hrec, rfl, j, hj, hloop⟩ := record_of_pbDecodeLoop hwf hi hne h
          have hpos := List.length_pos_iff.mpr hrec.ne_nil
          rw [List.length_append] at hrounds
          exact .cons hrec (ih hj (by omega) hloop)
  · intro h
    induction h generalizing i rounds with
    | nil => exact hend rounds i
    | @cons values values₁ final b bs hrec _ ih =>
        have hpos := List.length_pos_iff.mpr hrec.ne_nil
        rw [List.length_append] at hrounds
        obtain ⟨j, hj, hstep⟩ := pbDecodeLoop_record hwf hi hrec
        obtain ⟨m, rfl⟩ := Nat.exists_eq_succ_of_ne_zero (show rounds ≠ 0 by omega)
        rw [hstep]
        exact ih hj (by omega) hend

/-- The values that a message has before it is decoded. -/
def PbMsgdesc.defaults (fields : PbMsgdesc) : List UInt64 := fields.map fun _ => 0

theorem length_defaults (fields : PbMsgdesc) : fields.defaults.length = fields.length :=
  List.length_map _

theorem pbDecode_of_records (hwf : fields.WellFormed) (hne : fields ≠ [])
    (h : Records fields fields.defaults stream values) : pbDecode fields stream = .ok values :=
  (pbDecodeLoop_ok_iff hwf (List.length_pos_iff.mpr hne) (Nat.le_refl _)).mpr h

/-- `pb_decode` accepts the lists of records, and nothing else. -/
theorem pbDecode_ok_iff (hwf : fields.WellFormed) (hne : fields ≠ []) :
    pbDecode fields stream = .ok values ↔ Records fields fields.defaults stream values :=
  pbDecodeLoop_ok_iff hwf (List.length_pos_iff.mpr hne) (Nat.le_refl _)

/-- An `id`, a string for `name`, and a field that is not known. -/
theorem pbDecode_ok_iff_core :
    Records acoSimCoreMsg acoSimCoreMsg.defaults
      [0x08, 0x05, 0x12, 0x02, 0x61, 0x62, 0x7D, 1, 2, 3, 4] [5, 0, 0] :=
  (pbDecode_ok_iff acoSimCoreMsg_wellFormed (by decide)).mp rfl

theorem Records.append {values₁ values₂ values₃ : List UInt64} {s s' : List UInt8}
    (h : Records fields values₁ s values₂) (h' : Records fields values₂ s' values₃) :
    Records fields values₁ (s ++ s') values₃ := by
  induction h with
  | nil => exact h'
  | cons hrec _ ih =>
      rw [List.append_assoc]
      exact .cons hrec (ih h')

/-- Records at the start of the stream: the loop gets behind them, with rounds enough for the
rest. -/
theorem pbDecodeLoop_records (hwf : fields.WellFormed) {s : List UInt8}
    (h : Records fields values s values') (rest : List UInt8) {rounds : Nat}
    (hi : i < fields.length) (hrounds : (s ++ rest).length ≤ rounds) :
    ∃ j < fields.length, ∃ rounds', rest.length ≤ rounds' ∧
      pbDecodeLoop fields rounds (fields.load i) values (s ++ rest) =
        pbDecodeLoop fields rounds' (fields.load j) values' rest := by
  induction h generalizing i rounds with
  | nil => exact ⟨i, hi, rounds, hrounds, rfl⟩
  | @cons values values₁ values' b bs hrec _ ih =>
      have hpos := List.length_pos_iff.mpr hrec.ne_nil
      rw [List.append_assoc, List.length_append] at hrounds
      obtain ⟨m, rfl⟩ := Nat.exists_eq_succ_of_ne_zero (show rounds ≠ 0 by omega)
      obtain ⟨j, hj, hstep⟩ := pbDecodeLoop_record hwf hi hrec
      rw [List.append_assoc, hstep]
      exact ih hj (by omega)

end ACoral
