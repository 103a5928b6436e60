import ACoral.Kernel.PbDecode
import ACoral.Kernel.PbEncode
import ACoral.Proofs.PbRecords
import Mathlib.Data.List.Forall2

/-!
# `ACoral.Proofs.PbMessage`: messages there and back

* `pbEncode_eq_write`: an encoded message is one write of the bytes of its fields, though the
  code writes them piece by piece. So a buffer is large enough just when the sizing stream says.
* `pbDecode_messageBytes`: a reader with a descriptor of its own gets the values of the fields
  that it shares with the writer, over those it has.
* `pbEncodeSubmessage_eq_write`: a message with its length before it.
-/

set_option autoImplicit false

namespace ACoral

open Lib

variable {fields reader : PbMsgdesc} {values current : List UInt64} {f : PbField} {v : UInt64}
  {tag : Nat}

/-! ### The bytes of a message -/

/-- The number before the value of a field. -/
def tagNumber (wiretype : PbWireType) (fieldNumber : UInt32) : UInt64 :=
  (fieldNumber.toUInt64 <<< 3) ||| UInt64.ofNat wiretype

/-- The bytes of a field. -/
def fieldBytes (f : PbField) (v : UInt64) : List UInt8 :=
  if f.kind = .callback ∨ v = 0 then []
  else varintBytes (tagNumber PB_WT_VARINT (UInt32.ofNat f.tag)) ++ varintBytes v

/-- The bytes of a message. -/
def messageBytes : (fields : PbMsgdesc) → (values : List UInt64) → List UInt8
  | f :: fields, v :: values => fieldBytes f v ++ messageBytes fields values
  | _,           _           => []

variable {bytes a b : List UInt8} {s : PbOstream}

/-- The stream behind the bytes. -/
def PbOstream.after (s : PbOstream) (bytes : List UInt8) : PbOstream :=
  { s with bytesWritten := s.bytesWritten + bytes.length,
           buf := if s.sizing then s.buf else s.buf ++ bytes }

/-- The stream has room for the bytes. -/
def PbOstream.HasRoom (s : PbOstream) (n : Nat) : Prop :=
  n = 0 ∨ s.sizing ∨ s.bytesWritten + n ≤ s.maxSize

theorem pbWrite_room (h : s.HasRoom bytes.length) : pbWrite bytes s = .ok (s.after bytes) := by
  rw [pbWrite, PbOstream.after]
  by_cases hsizing : s.sizing
  · rw [if_neg fun h => h.2 hsizing, if_pos hsizing]
  · rw [if_neg hsizing]
    by_cases hempty : bytes.length = 0
    · rw [if_neg (by omega), List.length_eq_zero_iff.mp hempty, List.append_nil]
    · have hfits : s.bytesWritten + bytes.length ≤ s.maxSize := by
        rcases h with h | h | h
        · exact absurd h hempty
        · exact absurd h hsizing
        · exact h
      rw [if_pos ⟨by omega, hsizing⟩, if_neg (by omega)]

theorem pbWrite_full (h : ¬ s.HasRoom bytes.length) : pbWrite bytes s = .error .streamFull := by
  simp only [PbOstream.HasRoom, not_or] at h
  rw [pbWrite, if_pos ⟨by omega, h.2.1⟩, if_pos (by omega)]

theorem pbWrite_ok_iff {s' : PbOstream} :
    pbWrite bytes s = .ok s' ↔ s.HasRoom bytes.length ∧ s' = s.after bytes := by
  by_cases h : s.HasRoom bytes.length
  · rw [pbWrite_room h]
    exact ⟨fun heq => ⟨h, (Except.ok.inj heq).symm⟩, fun heq => congrArg _ heq.2.symm⟩
  · rw [pbWrite_full h]
    exact ⟨nofun, fun heq => absurd heq.1 h⟩

theorem hasRoom_fromBuffer {n m : Nat} : (pbOstreamFromBuffer n).HasRoom m ↔ m ≤ n := by
  constructor
  · rintro (h | h | h)
    · omega
    · exact absurd h nofun
    · exact Nat.zero_add m ▸ h
  · intro h
    exact Or.inr (Or.inr (by rw [pbOstreamFromBuffer, Nat.zero_add]; exact h))

theorem after_fromBuffer (n : Nat) (bytes : List UInt8) :
    (pbOstreamFromBuffer n).after bytes = ⟨false, n, bytes.length, bytes⟩ := by
  simp [PbOstream.after, pbOstreamFromBuffer]

theorem pbWrite_nil (s : PbOstream) : pbWrite [] s = .ok s := by
  rw [pbWrite_room (Or.inl rfl), PbOstream.after, List.append_nil, ite_self]
  rfl

/-- Two writes are one. -/
theorem pbWrite_append (a b : List UInt8) (s : PbOstream) :
    pbWrite (a ++ b) s = (pbWrite a s).bind (pbWrite b) := by
  have hlen : (a ++ b).length = a.length + b.length := List.length_append
  by_cases hb : b.length = 0
  · rw [List.length_eq_zero_iff.mp hb, List.append_nil]
    cases h : pbWrite a s with
    | error e => rfl
    | ok s' => exact (pbWrite_nil s').symm
  by_cases ha : s.HasRoom a.length
  · rw [pbWrite_room ha]
    show _ = pbWrite b (s.after a)
    by_cases hab : s.HasRoom (a ++ b).length
    · have hroom : (s.after a).HasRoom b.length := by
        rcases hab with h | h | h
        · omega
        · exact Or.inr (Or.inl h)
        · refine Or.inr (Or.inr ?_)
          show s.bytesWritten + a.length + b.length ≤ s.maxSize
          omega
      rw [pbWrite_room hab, pbWrite_room hroom, PbOstream.after, PbOstream.after, PbOstream.after]
      split <;> simp [Nat.add_assoc]
    · have hfull : ¬ (s.after a).HasRoom b.length := by
        rintro (h | h | h)
        · exact hb h
        · exact hab (Or.inr (Or.inl h))
        · refine hab (Or.inr (Or.inr ?_))
          have h : s.bytesWritten + a.length + b.length ≤ s.maxSize := h
          omega
      rw [pbWrite_full hab, pbWrite_full hfull]
  · have hab : ¬ s.HasRoom (a ++ b).length := by
      rintro (h | h | h)
      · exact ha (Or.inl (by omega))
      · exact ha (Or.inr (Or.inl h))
      · exact ha (Or.inr (Or.inr (by omega)))
    rw [pbWrite_full ha, pbWrite_full hab]
    rfl

theorem encodeField_eq_write (f : PbField) (v : UInt64) (s : PbOstream) :
    encodeField f v s = pbWrite (fieldBytes f v) s := by
  rw [encodeField]
  by_cases hnone : f.kind = .callback ∨ v = 0
  · rw [fieldBytes, if_pos hnone, pbWrite_nil]
    cases hkind : f.kind with
    | callback => rfl
    | _ => exact if_pos (by simpa [hkind] using hnone)
  · rw [fieldBytes, if_neg hnone, pbWrite_append]
    cases hkind : f.kind with
    | callback => exact absurd (Or.inl hkind) hnone
    | _ => exact if_neg fun h => hnone (Or.inr h)

theorem pbEncode_eq_write (fields : PbMsgdesc) (values : List UInt64) (s : PbOstream) :
    pbEncode fields values s = pbWrite (messageBytes fields values) s := by
  induction fields generalizing values s with
  | nil => exact (pbWrite_nil s).symm
  | cons f fields ih =>
      cases values with
      | nil => exact (pbWrite_nil s).symm
      | cons v values =>
          rw [pbEncode, messageBytes, pbWrite_append, encodeField_eq_write]
          congr 1
          funext s'
          exact ih values s'

/-! ### Messages to a reader -/

theorem toNat_tagNumber (h : tag < 2 ^ 29) :
    (tagNumber PB_WT_VARINT (UInt32.ofNat tag)).toNat = 8 * tag := by
  have htag : (UInt32.ofNat tag).toNat = tag := by
    rw [UInt32.toNat_ofNat']
    omega
  rw [tagNumber, UInt64.toNat_or, UInt64.toNat_shiftLeft, UInt32.toNat_toUInt64, htag]
  show tag <<< 3 % 2 ^ 64 ||| 0 = _
  rw [Nat.or_zero, Nat.shiftLeft_eq]
  omega

theorem isTag_tagNumber (h : tag < 2 ^ 29) :
    IsTag PB_WT_VARINT tag (varintBytes (tagNumber PB_WT_VARINT (UInt32.ofNat tag))) := by
  have hnumber := toNat_tagNumber h
  refine ⟨(tagNumber PB_WT_VARINT (UInt32.ofNat tag)).toUInt32, fun rest => ?_, ?_, ?_⟩
  · exact pbDecodeVarint32_varintBytes (by omega) rest
  · rw [UInt64.toNat_toUInt32, hnumber]
    show _ = 0
    omega
  · rw [UInt64.toNat_toUInt32, hnumber]
    omega

theorem takes_varintBytes (v : UInt64) : Takes pbDecodeVarint (varintBytes v) v :=
  pbDecodeVarint_varintBytes v

/-- The number that the writer has for a tag, and 0 where it has none. -/
def valueOf : (fields : PbMsgdesc) → (values : List UInt64) → (tag : Nat) → UInt64
  | f :: fields, v :: values, tag => if f.tag = tag then v else valueOf fields values tag
  | _,           _,           _   => 0

/-- The reader's value of a field behind the message. -/
def overlaid (fields : PbMsgdesc) (values : List UInt64) (g : PbField) (old : UInt64) : UInt64 :=
  if g.kind = .callback ∨ valueOf fields values g.tag = 0 then old
  else valueOf fields values g.tag

/-- A reader's values behind the message: those of the writer go over its own. -/
def overlay (fields : PbMsgdesc) (values : List UInt64) (reader : PbMsgdesc)
    (current : List UInt64) : List UInt64 :=
  List.zipWith (overlaid fields values) reader current

theorem valueOf_eq_zero (h : ∀ f ∈ fields, f.tag ≠ tag) : valueOf fields values tag = 0 := by
  induction fields generalizing values with
  | nil => rfl
  | cons f fields ih =>
      cases values with
      | nil => rfl
      | cons v values =>
          rw [valueOf, if_neg (h f List.mem_cons_self)]
          exact ih fun g hg => h g (List.mem_cons_of_mem f hg)

theorem PbMsgdesc.WellFormed.tail {f : PbField} {fields : PbMsgdesc}
    (h : PbMsgdesc.WellFormed (f :: fields)) : PbMsgdesc.WellFormed fields :=
  ⟨(List.pairwise_cons.mp h.sorted).2, fun g hg => h.bounds g (List.mem_cons_of_mem f hg)⟩

theorem PbKind.fits_zero (kind : PbKind) : kind.Fits 0 := by
  cases kind with
  | uint32 => exact Nat.two_pow_pos 32
  | uint64 => trivial
  | callback => rfl

theorem length_overlay (h : current.length = reader.length) :
    (overlay fields values reader current).length = reader.length := by
  rw [overlay, List.length_zipWith, h, Nat.min_self]

/-- An overlay, field by field. -/
theorem overlay_eq {next : List UInt64} (hcurrent : current.length = reader.length)
    (hnext : next.length = reader.length)
    (h : ∀ i (hi : i < reader.length), next[i] = overlaid fields values reader[i] current[i]) :
    next = overlay fields values reader current := by
  apply List.ext_getElem
  · rw [hnext, length_overlay hcurrent]
  · intro i hi _
    rw [h i (by omega)]
    simp only [overlay, List.getElem_zipWith]

theorem overlay_of_zero (hcurrent : current.length = reader.length)
    (h : ∀ g ∈ reader, valueOf fields values g.tag = 0) :
    overlay fields values reader current = current :=
  (overlay_eq hcurrent hcurrent fun i hi => by
    rw [overlaid, if_pos (Or.inr (h _ (List.getElem_mem hi)))]).symm

/-- The overlay of a message, field after field. -/
theorem overlay_cons (hwf : PbMsgdesc.WellFormed (f :: fields))
    (hcurrent : current.length = reader.length) :
    overlay fields values reader (overlay [f] [v] reader current) =
      overlay (f :: fields) (v :: values) reader current := by
  have hfirst : (overlay [f] [v] reader current).length = reader.length :=
    length_overlay hcurrent
  refine overlay_eq hcurrent (length_overlay hfirst) fun i hi => ?_
  simp only [overlay, List.getElem_zipWith, overlaid, valueOf]
  by_cases htag : f.tag = reader[i].tag
  · have hrest : valueOf fields values reader[i].tag = 0 :=
      valueOf_eq_zero fun g hg =>
        htag ▸ (Nat.ne_of_gt ((List.pairwise_cons.mp hwf.sorted).1 g hg))
    simp only [htag, hrest, if_true, or_true]
  · simp only [htag, if_false, or_true, if_true]

theorem overlaid_of_ne {g : PbField} {old : UInt64} (h : f.tag ≠ g.tag) :
    overlaid [f] [v] g old = old := by
  have hzero : valueOf [f] [v] g.tag = 0 := if_neg h
  rw [overlaid, if_pos (Or.inr hzero)]

theorem overlaid_of_eq {g : PbField} {old : UInt64} (h : f.tag = g.tag) :
    overlaid [f] [v] g old = if g.kind = .callback ∨ v = 0 then old else v := by
  have hv : valueOf [f] [v] g.tag = v := if_pos h
  rw [overlaid, hv]

/-- A field that is sent is no string, and not 0. -/
theorem fieldBytes_of_ne (hvalue : f.kind.Fits v) (hv : v ≠ 0) :
    fieldBytes f v =
      varintBytes (tagNumber PB_WT_VARINT (UInt32.ofNat f.tag)) ++ varintBytes v := by
  have hkind : f.kind ≠ .callback := by
    intro hkind
    rw [hkind] at hvalue
    exact hv hvalue
  rw [fieldBytes, if_neg fun h => h.elim hkind hv]

/-- What the bytes of one field do to the values of a reader. -/
theorem records_fieldBytes (hr : reader.WellFormed) (hcurrent : current.length = reader.length)
    (htag : 1 ≤ f.tag ∧ f.tag < 2 ^ 29) (hvalue : f.kind.Fits v)
    (hfits : ∀ g ∈ reader, g.tag = f.tag → g.kind ≠ .callback → g.kind.Fits v) :
    Records reader current (fieldBytes f v) (overlay [f] [v] reader current) := by
  by_cases hv : v = 0
  · have hzero : ∀ g ∈ reader, valueOf [f] [v] g.tag = 0 := fun g _ => by
      rw [hv]
      exact ite_self 0
    rw [fieldBytes, if_pos (Or.inr hv), overlay_of_zero hcurrent hzero]
    exact .nil
  rw [fieldBytes_of_ne hvalue hv, ← List.append_nil (_ ++ _)]
  refine .cons ?_ .nil
  have htagBytes := isTag_tagNumber htag.2
  by_cases hnone : ∀ g ∈ reader, g.tag ≠ f.tag
  · -- a field that the reader does not have
    have hzero : ∀ g ∈ reader, valueOf [f] [v] g.tag = 0 := fun g hg =>
      if_neg fun h => hnone g hg h.symm
    rw [overlay_of_zero hcurrent hzero]
    exact .unknown hnone (by omega) htagBytes (Or.inl ⟨rfl, groups_varintBytes v⟩)
  · push Not at hnone
    obtain ⟨⟨tag, kind⟩, hmem, rfl⟩ := hnone
    obtain ⟨i, hfield⟩ := List.getElem?_of_mem hmem
    obtain ⟨hi, hget⟩ := List.getElem?_eq_some_iff.mp hfield
    have hother : ∀ j (hj : j < reader.length), i ≠ j → f.tag ≠ reader[j].tag := by
      intro j hj hne heq
      refine hne (hr.tagAt_inj hi hj ?_)
      rw [tagAt_eq hi, tagAt_eq hj, hget, ← heq]
    by_cases hkind : kind = .callback
    · subst hkind
      have hsame : overlay [f] [v] reader current = current := by
        refine (overlay_eq hcurrent hcurrent fun j hj => ?_).symm
        by_cases hij : i = j
        · subst hij
          rw [overlaid_of_eq (by rw [hget]), hget, if_pos (Or.inl rfl)]
        · rw [overlaid_of_ne (hother j hj hij)]
      rw [hsame]
      exact .callback hfield htagBytes (Or.inl ⟨rfl, groups_varintBytes v⟩) fun _ =>
        length_varintBytes_le v
    · have hset : overlay [f] [v] reader current = current.set i v := by
        refine (overlay_eq hcurrent (by rw [List.length_set, hcurrent]) fun j hj => ?_).symm
        rw [List.getElem_set]
        by_cases hij : i = j
        · subst hij
          rw [if_pos rfl, overlaid_of_eq (by rw [hget]), hget, if_neg fun h => h.elim hkind hv]
        · rw [if_neg hij, overlaid_of_ne (hother j hj hij)]
      rw [hset]
      exact .number hfield hkind htagBytes (takes_varintBytes v) (hfits _ hmem rfl hkind)

/-- The numbers of the writer are values of the reader's fields. -/
def FitsReader (fields : PbMsgdesc) (values : List UInt64) (reader : PbMsgdesc) : Prop :=
  ∀ g ∈ reader, g.kind ≠ .callback → g.kind.Fits (valueOf fields values g.tag)

instance (fields reader : PbMsgdesc) (values : List UInt64) :
    Decidable (FitsReader fields values reader) :=
  inferInstanceAs (Decidable (∀ g ∈ reader, g.kind ≠ .callback → g.kind.Fits _))

theorem FitsReader.head (h : FitsReader (f :: fields) (v :: values) reader) :
    ∀ g ∈ reader, g.tag = f.tag → g.kind ≠ .callback → g.kind.Fits v := by
  intro g hg htag hkind
  have hfits := h g hg hkind
  rw [valueOf, if_pos htag.symm] at hfits
  exact hfits

theorem FitsReader.tail (hwf : PbMsgdesc.WellFormed (f :: fields))
    (h : FitsReader (f :: fields) (v :: values) reader) : FitsReader fields values reader := by
  intro g hg hkind
  have hfits := h g hg hkind
  rw [valueOf] at hfits
  by_cases htag : f.tag = g.tag
  · rw [valueOf_eq_zero fun e he =>
      htag ▸ (Nat.ne_of_gt ((List.pairwise_cons.mp hwf.sorted).1 e he))]
    exact g.kind.fits_zero
  · rw [if_neg htag] at hfits
    exact hfits

/-- What the bytes of a message do to the values of a reader. -/
theorem records_messageBytes (hwf : fields.WellFormed) (hr : reader.WellFormed)
    (hcurrent : current.length = reader.length) (hvalues : fields.HasValues values)
    (hfits : FitsReader fields values reader) :
    Records reader current (messageBytes fields values) (overlay fields values reader current) := by
  induction hvalues generalizing current with
  | nil =>
      rw [overlay_of_zero hcurrent fun _ _ => rfl]
      exact .nil
  | @cons f v fields values hvalue hvalues ih =>
      have hhead := records_fieldBytes hr hcurrent (hwf.bounds f List.mem_cons_self) hvalue
        hfits.head
      rw [messageBytes, ← overlay_cons hwf hcurrent]
      exact hhead.append (ih hwf.tail (length_overlay hcurrent) (hfits.tail hwf))

theorem pbDecode_messageBytes (hwf : fields.WellFormed) (hr : reader.WellFormed)
    (hne : reader ≠ []) (hvalues : fields.HasValues values) (hfits : FitsReader fields values reader) :
    pbDecode reader (messageBytes fields values) =
      .ok (overlay fields values reader reader.defaults) :=
  pbDecode_of_records hr hne
    (records_messageBytes hwf hr (length_defaults reader) hvalues hfits)

theorem FitsReader.cons
    (hhead : ∀ g ∈ reader, g.tag = f.tag → g.kind ≠ .callback → g.kind.Fits v)
    (htail : FitsReader fields values reader) : FitsReader (f :: fields) (v :: values) reader := by
  intro g hg hkind
  rw [valueOf]
  by_cases htag : f.tag = g.tag
  · rw [if_pos htag]
    exact hhead g hg htag.symm hkind
  · rw [if_neg htag]
    exact htail g hg hkind

/-- A number that is no value of the reader's field stops the reader. -/
theorem pbDecodeLoop_tooLarge (hr : reader.WellFormed) {i rounds : Nat} (hi : i < reader.length)
    (htag : f.tag < 2 ^ 29) (hvalue : f.kind.Fits v)
    (hlarge : ∃ g ∈ reader, g.tag = f.tag ∧ g.kind ≠ .callback ∧ ¬ g.kind.Fits v)
    (rest : List UInt8) (hrounds : (fieldBytes f v ++ rest).length ≤ rounds) :
    pbDecodeLoop reader rounds (reader.load i) current (fieldBytes f v ++ rest) =
      .error .integerTooLarge := by
  obtain ⟨⟨tag, kind⟩, hmem, rfl, hkind, hnot⟩ := hlarge
  obtain ⟨p, hfield⟩ := List.getElem?_of_mem hmem
  obtain ⟨hp, hptag, -⟩ := tagAt_of_getElem? hfield
  have hv : v ≠ 0 := fun h => hnot (h ▸ kind.fits_zero)
  have hzero := (hr.bounds _ hmem).1
  rw [fieldBytes_of_ne hvalue hv] at hrounds ⊢
  have hpos := length_varintBytes_pos v
  rw [List.length_append, List.length_append] at hrounds
  obtain ⟨m, rfl⟩ := Nat.exists_eq_succ_of_ne_zero (show rounds ≠ 0 by omega)
  have hne : varintBytes (tagNumber PB_WT_VARINT (UInt32.ofNat f.tag)) ++ varintBytes v ++ rest ≠
      [] := by
    intro h
    have hlen := congrArg List.length h
    rw [List.length_append, List.length_append, List.length_nil] at hlen
    omega
  have hstatic : decodeStaticField kind PB_WT_VARINT (varintBytes v ++ rest) =
      .error .integerTooLarge := by
    rw [decodeStaticField, if_neg (not_not.mpr rfl), pbDecodeVarint_varintBytes]
    exact if_pos fun h => hnot ((clamped_eq_iff hkind v).mp h)
  have hfind := pbFieldIterFind_found hr hi hp
  rw [hptag] at hfind
  rw [pbDecodeLoop_succ m _ _ hne, List.append_assoc,
    pbDecodeTag_ok_iff.mpr ⟨_, isTag_tagNumber htag, rfl⟩]
  show (if f.tag = 0 then _ else _) = _
  rw [if_neg (show f.tag ≠ 0 from Nat.pos_iff_ne_zero.mp hzero), hfind]
  show (decodeField reader p PB_WT_VARINT current (varintBytes v ++ rest)).bind _ = _
  rw [decodeField_number hfield hkind, hstatic]
  rfl

theorem pbDecodeLoop_messageBytes_tooLarge (hwf : fields.WellFormed) (hr : reader.WellFormed)
    {i rounds : Nat} (hi : i < reader.length) (hcurrent : current.length = reader.length)
    (hvalues : fields.HasValues values) (hlarge : ¬ FitsReader fields values reader)
    (hrounds : (messageBytes fields values).length ≤ rounds) :
    pbDecodeLoop reader rounds (reader.load i) current (messageBytes fields values) =
      .error .integerTooLarge := by
  induction hvalues generalizing current i rounds with
  | nil => exact absurd (fun g _ _ => g.kind.fits_zero) hlarge
  | @cons f v fields values hvalue hvalues ih =>
      have hbounds := hwf.bounds f List.mem_cons_self
      by_cases hhead : ∀ g ∈ reader, g.tag = f.tag → g.kind ≠ .callback → g.kind.Fits v
      · have hrecords := records_fieldBytes hr hcurrent hbounds hvalue hhead
        obtain ⟨j, hj, rounds', hrounds', hloop⟩ :=
          pbDecodeLoop_records hr hrecords (messageBytes fields values) hi hrounds
        rw [messageBytes, hloop]
        exact ih hwf.tail hj (length_overlay hcurrent)
          (fun htail => hlarge (.cons hhead htail)) hrounds'
      · push Not at hhead
        exact pbDecodeLoop_tooLarge hr hi hbounds.2 hvalue hhead _ hrounds

/-- A buffer is large enough just when it has the size that the sizing stream gives, and the
bytes do not depend on it. -/
theorem pbEncode_buffer (fields : PbMsgdesc) (values : List UInt64) :
    ∃ bytes : List UInt8, pbGetEncodedSize fields values = .ok bytes.length ∧
      ∀ n, pbEncode fields values (pbOstreamFromBuffer n) =
        if bytes.length ≤ n then .ok ⟨false, n, bytes.length, bytes⟩ else .error .streamFull := by
  refine ⟨messageBytes fields values, ?_, fun n => ?_⟩
  · rw [pbGetEncodedSize, pbEncode_eq_write, pbWrite_room (Or.inr (Or.inl rfl))]
    exact congrArg Except.ok (Nat.zero_add _)
  · rw [pbEncode_eq_write]
    by_cases hfits : (messageBytes fields values).length ≤ n
    · rw [if_pos hfits, pbWrite_room (hasRoom_fromBuffer.mpr hfits), after_fromBuffer]
    · rw [if_neg hfits, pbWrite_full (mt hasRoom_fromBuffer.mp hfits)]

theorem buf_of_pbEncode {n : Nat} {s : PbOstream}
    (h : pbEncode fields values (pbOstreamFromBuffer n) = .ok s) :
    s.buf = messageBytes fields values := by
  rw [pbEncode_eq_write] at h
  rw [(pbWrite_ok_iff.mp h).2, after_fromBuffer]

/-- A message that another version of the program reads. Its fields are found by their tags: a
field that the reader does not have is skipped, one that the writer does not have is 0. A number
too large for the reader is an error, and never cut off. -/
theorem message_versions {n : Nat} {s : PbOstream} (hwf : fields.WellFormed)
    (hr : reader.WellFormed) (hne : reader ≠ []) (hvalues : fields.HasValues values)
    (h : pbEncode fields values (pbOstreamFromBuffer n) = .ok s) :
    (FitsReader fields values reader → pbDecode reader s.buf =
      .ok (reader.map fun g => if g.kind = .callback then 0 else valueOf fields values g.tag)) ∧
    (¬ FitsReader fields values reader → pbDecode reader s.buf = .error .integerTooLarge) := by
  rw [buf_of_pbEncode h]
  constructor
  · intro hfits
    rw [pbDecode_messageBytes hwf hr hne hvalues hfits]
    rw [overlay, PbMsgdesc.defaults, List.zipWith_map_right, List.zipWith_self]
    congr 2
    funext g
    rw [overlaid]
    by_cases hkind : g.kind = .callback
    · rw [if_pos (Or.inl hkind), if_pos hkind]
    · rw [if_neg hkind]
      by_cases hzero : valueOf fields values g.tag = 0
      · rw [if_pos (Or.inr hzero), hzero]
      · rw [if_neg fun h => h.elim hkind hzero]
  · intro hlarge
    exact pbDecodeLoop_messageBytes_tooLarge hwf hr (List.length_pos_iff.mpr hne)
      (length_defaults reader) hvalues hlarge (Nat.le_refl _)

theorem message_versions_task :
    pbDecode acoSimTaskMsg [0x08, 1, 0x18, 3, 0x28, 5] = .ok [1, 0, 3, 0, 5, 0, 0, 0, 0] :=
  have hencode : pbEncode acoSimSwitchContextMsg [1, 0, 3, 0, 5] (pbOstreamFromBuffer 40) =
      .ok ⟨false, 40, 6, [0x08, 1, 0x18, 3, 0x28, 5]⟩ := rfl
  (message_versions acoSimSwitchContextMsg_wellFormed acoSimTaskMsg_wellFormed (by decide)
    (by decide) hencode).1 (by decide)

/-! ### Several messages in a stream -/

/-- The values of a message over older ones: a 0 is not sent. -/
def merged (old new : List UInt64) : List UInt64 :=
  List.zipWith (fun o v => if v = 0 then o else v) old new

theorem valueOf_getElem (hwf : fields.WellFormed) {i : Nat} (hlen : values.length = fields.length)
    (hi : i < fields.length) : valueOf fields values fields[i].tag = values[i] := by
  induction fields generalizing values i with
  | nil => exact absurd hi (Nat.not_lt_zero i)
  | cons f fields ih =>
      cases values with
      | nil => exact absurd hlen (Nat.succ_ne_zero fields.length).symm
      | cons v values =>
          have hlen' := Nat.succ.inj hlen
          cases i with
          | zero => exact if_pos rfl
          | succ i =>
              have hi' : i < fields.length := Nat.lt_of_succ_lt_succ hi
              have htag := (List.pairwise_cons.mp hwf.sorted).1 fields[i] (List.getElem_mem hi')
              rw [valueOf, List.getElem_cons_succ, if_neg (Nat.ne_of_lt htag)]
              exact ih hwf.tail hlen' hi'

theorem PbMsgdesc.HasValues.fits (hwf : fields.WellFormed) (hvalues : fields.HasValues values) :
    FitsReader fields values fields := by
  intro g hg _
  obtain ⟨i, hi, rfl⟩ := List.getElem_of_mem hg
  have hlen := List.Forall₂.length_eq hvalues
  rw [valueOf_getElem hwf hlen.symm hi]
  exact (List.forall₂_iff_get.mp hvalues).2 i hi (by omega)

/-- The overlay of a message over others of its own descriptor. -/
theorem overlay_self (hwf : fields.WellFormed) (hvalues : fields.HasValues values)
    (hcurrent : current.length = fields.length) :
    overlay fields values fields current = merged current values := by
  have hlen := List.Forall₂.length_eq hvalues
  refine (overlay_eq hcurrent (by rw [merged, List.length_zipWith]; omega) fun i hi => ?_).symm
  have hfits := (List.forall₂_iff_get.mp hvalues).2 i hi (by omega)
  simp only [merged, List.getElem_zipWith, overlaid, valueOf_getElem hwf hlen.symm hi]
  by_cases hkind : fields[i].kind = .callback
  · have hzero : values[i] = 0 := by
      simp only [List.get_eq_getElem, hkind] at hfits
      exact hfits
    simp only [hzero, or_true, if_true]
  · simp only [hkind, false_or]

theorem foldlM_pbEncode (fields : PbMsgdesc) (messages : List (List UInt64)) (s : PbOstream) :
    messages.foldlM (fun s m => pbEncode fields m s) s =
      pbWrite (messages.flatMap (messageBytes fields)) s := by
  induction messages generalizing s with
  | nil => exact (pbWrite_nil s).symm
  | cons m messages ih =>
      rw [List.foldlM_cons, List.flatMap_cons, pbWrite_append, pbEncode_eq_write]
      show (pbWrite _ s).bind _ = _
      congr 1
      funext s'
      exact ih s'

theorem length_merged {new : List UInt64} (hcurrent : current.length = fields.length)
    (hnew : fields.HasValues new) : (merged current new).length = fields.length := by
  have hlen := List.Forall₂.length_eq hnew
  rw [merged, List.length_zipWith]
  omega

theorem records_messages (hwf : fields.WellFormed) {messages : List (List UInt64)}
    (hvalues : ∀ m ∈ messages, fields.HasValues m) (hcurrent : current.length = fields.length) :
    Records fields current (messages.flatMap (messageBytes fields))
      (messages.foldl merged current) := by
  induction messages generalizing current with
  | nil => exact .nil
  | cons m messages ih =>
      obtain ⟨hm, hrest⟩ := List.forall_mem_cons.mp hvalues
      have hhead := records_messageBytes hwf hwf hcurrent hm (hm.fits hwf)
      rw [overlay_self hwf hm hcurrent] at hhead
      rw [List.flatMap_cons, List.foldl_cons]
      exact hhead.append (ih hrest (length_merged hcurrent hm))

/-- Messages that are written one after the other, with nothing between them, are read as one:
in each field the last number that is not 0. -/
theorem messages_merge {n : Nat} {s : PbOstream} {messages : List (List UInt64)}
    (hwf : fields.WellFormed) (hne : fields ≠ []) (hvalues : ∀ m ∈ messages, fields.HasValues m)
    (h : messages.foldlM (fun s m => pbEncode fields m s) (pbOstreamFromBuffer n) = .ok s) :
    pbDecode fields s.buf = .ok (messages.foldl merged fields.defaults) := by
  rw [foldlM_pbEncode] at h
  rw [(pbWrite_ok_iff.mp h).2, after_fromBuffer]
  exact pbDecode_of_records hwf hne (records_messages hwf hvalues (length_defaults fields))

theorem messages_merge_switch :
    pbDecode acoSimSwitchContextMsg [0x08, 1, 0x10, 2, 0x08, 7, 0x28, 9] = .ok [7, 2, 0, 0, 9] :=
  have hencode : [[1, 2, 0, 0, 0], [7, 0, 0, 0, 9]].foldlM
      (fun s m => pbEncode acoSimSwitchContextMsg m s) (pbOstreamFromBuffer 40) =
        .ok ⟨false, 40, 8, [0x08, 1, 0x10, 2, 0x08, 7, 0x28, 9]⟩ := rfl
  messages_merge acoSimSwitchContextMsg_wellFormed (by decide) (by decide) hencode

/-! ### The largest message -/

/-- The largest value of a field. -/
def PbKind.largest : PbKind → UInt64
  | .uint32   => 0xFFFFFFFF
  | .uint64   => 0xFFFFFFFFFFFFFFFF
  | .callback => 0

theorem PbKind.fits_largest (kind : PbKind) : kind.Fits kind.largest := by
  cases kind <;> decide

theorem PbKind.Fits.le_largest {kind : PbKind} (h : kind.Fits v) :
    v.toNat ≤ kind.largest.toNat := by
  have hlt := v.toNat_lt
  cases kind with
  | uint32 => exact Nat.le_of_lt_succ h
  | uint64 => exact Nat.le_of_lt_succ hlt
  | callback =>
      rw [show v = 0 from h]
      exact Nat.le_refl _

theorem length_fieldBytes_le (h : f.kind.Fits v) :
    (fieldBytes f v).length ≤ (fieldBytes f f.kind.largest).length := by
  by_cases hv : v = 0
  · rw [fieldBytes, if_pos (Or.inr hv)]
    exact Nat.zero_le _
  · have hle := h.le_largest
    have hlargest : f.kind.largest ≠ 0 := by
      intro hzero
      rw [hzero] at hle
      exact hv (UInt64.toNat_inj.mp (Nat.le_zero.mp hle))
    rw [fieldBytes_of_ne h hv, fieldBytes_of_ne f.kind.fits_largest hlargest, List.length_append,
      List.length_append, varintBytes_eq v, varintBytes_eq f.kind.largest]
    exact Nat.add_le_add_left (length_encode128_mono hle) _

theorem length_messageBytes_le (h : fields.HasValues values) :
    (messageBytes fields values).length ≤
      (messageBytes fields (fields.map fun f => f.kind.largest)).length := by
  induction h with
  | nil => exact Nat.le_refl _
  | cons hvalue _ ih =>
      rw [messageBytes, List.map_cons, messageBytes, List.length_append, List.length_append]
      exact Nat.add_le_add (length_fieldBytes_le hvalue) ih

/-- The size that the generator gives for a switch of contexts is the least one that is enough
for each of them. -/
theorem acoSimSwitchContext_size_least (n : Nat) :
    (∀ values, acoSimSwitchContextMsg.HasValues values →
      ∃ s, pbEncode acoSimSwitchContextMsg values (pbOstreamFromBuffer n) = .ok s) ↔
    AcoSimSwitchContext_size ≤ n := by
  have hlargest : (messageBytes acoSimSwitchContextMsg
      (acoSimSwitchContextMsg.map fun f => f.kind.largest)).length = AcoSimSwitchContext_size := by
    decide
  constructor
  · intro h
    obtain ⟨s, hs⟩ := h (acoSimSwitchContextMsg.map fun f => f.kind.largest) (by
      rw [PbMsgdesc.HasValues, List.forall₂_map_right_iff, List.forall₂_same]
      exact fun f _ => f.kind.fits_largest)
    rw [pbEncode_eq_write, pbWrite_ok_iff, hasRoom_fromBuffer, hlargest] at hs
    exact hs.1
  · intro hn values hvalues
    have hle := length_messageBytes_le hvalues
    rw [hlargest] at hle
    exact ⟨_, by
      rw [pbEncode_eq_write]
      exact pbWrite_room (hasRoom_fromBuffer.mpr (Nat.le_trans hle hn))⟩

/-! ### Messages with their lengths -/

/-- The bytes of a message behind its length. -/
def delimitedBytes (fields : PbMsgdesc) (values : List UInt64) : List UInt8 :=
  varintBytes (UInt64.ofNat (messageBytes fields values).length) ++ messageBytes fields values

/-- A message with its length before it is one write, too. -/
theorem pbEncodeSubmessage_eq_write (fields : PbMsgdesc) (values : List UInt64) (s : PbOstream) :
    pbEncodeSubmessage fields values s = pbWrite (delimitedBytes fields values) s := by
  have hsize : pbGetEncodedSize fields values = .ok (messageBytes fields values).length := by
    rw [pbGetEncodedSize, pbEncode_eq_write, pbWrite_room (Or.inr (Or.inl rfl))]
    exact congrArg Except.ok (Nat.zero_add _)
  have hpos := length_varintBytes_pos (UInt64.ofNat (messageBytes fields values).length)
  rw [pbEncodeSubmessage, hsize, delimitedBytes, pbWrite_append]
  show (pbWrite _ s).bind _ = _
  cases hlength : pbWrite (varintBytes (UInt64.ofNat (messageBytes fields values).length)) s with
  | error e => rfl
  | ok s' =>
      show (if s'.sizing then _ else if _ then _ else _) = pbWrite (messageBytes fields values) s'
      by_cases hsizing : s'.sizing
      · rw [if_pos hsizing, pbWrite_room (Or.inr (Or.inl hsizing)), PbOstream.after, if_pos hsizing]
      have hbound : s'.bytesWritten ≤ s'.maxSize := by
        obtain ⟨hroom, rfl⟩ := pbWrite_ok_iff.mp hlength
        rcases hroom with h | h | h
        · omega
        · exact absurd h hsizing
        · exact h
      rw [if_neg hsizing]
      by_cases hfull : s'.bytesWritten + (messageBytes fields values).length > s'.maxSize
      · have hnoroom : ¬ s'.HasRoom (messageBytes fields values).length := by
          rintro (h | h | h)
          · omega
          · exact hsizing h
          · omega
        rw [if_pos hfull, pbWrite_full hnoroom]
      · -- the substream has room for the message, and for no more
        have hsub : PbOstream.HasRoom
            { s' with maxSize := (messageBytes fields values).length, bytesWritten := 0 }
            (messageBytes fields values).length :=
          Or.inr (Or.inr (Nat.le_of_eq (Nat.zero_add _)))
        rw [if_neg hfull, pbWrite_room (Or.inr (Or.inr (Nat.not_lt.mp hfull))), pbEncode_eq_write,
          pbWrite_room hsub]
        show (if 0 + (messageBytes fields values).length ≠ (messageBytes fields values).length then
          _ else _) = _
        rw [if_neg (not_not.mpr (Nat.zero_add (messageBytes fields values).length))]
        simp [PbOstream.after]

/-- Messages that are read one after the other, each behind its length. -/
def pbDecodeMessages (fields : PbMsgdesc) :
    (count : Nat) → List UInt8 → Except PbError (List (List UInt64) × List UInt8)
  | 0,         stream => .ok ([], stream)
  | count + 1, stream =>
      (pbDecodeDelimited fields stream).bind fun (values, stream) =>
        (pbDecodeMessages fields count stream).map fun (messages, stream) =>
          (values :: messages, stream)

theorem merged_defaults (hvalues : fields.HasValues values) :
    merged fields.defaults values = values := by
  have hlen := List.Forall₂.length_eq hvalues
  apply List.ext_getElem
  · rw [length_merged (length_defaults fields) hvalues, hlen]
  · intro i hi hi'
    simp only [merged, PbMsgdesc.defaults, List.getElem_zipWith, List.getElem_map]
    split
    · exact Eq.symm ‹_›
    · rfl

theorem pbDecodeDelimited_delimitedBytes (hwf : fields.WellFormed) (hne : fields ≠ [])
    (hvalues : fields.HasValues values) (hsize : (messageBytes fields values).length < 2 ^ 32)
    (rest : List UInt8) :
    pbDecodeDelimited fields (delimitedBytes fields values ++ rest) = .ok (values, rest) := by
  have hnumber : (UInt64.ofNat (messageBytes fields values).length).toNat =
      (messageBytes fields values).length := by
    rw [UInt64.toNat_ofNat']
    omega
  have hpart : pbMakeStringSubstream (delimitedBytes fields values ++ rest) =
      .ok (messageBytes fields values, rest) := by
    refine pbMakeStringSubstream_ok_iff.mpr ⟨_, _,
      fun s => pbDecodeVarint32_varintBytes (by rw [hnumber]; exact hsize) s, ?_, ?_⟩
    · rw [UInt64.toNat_toUInt32, hnumber, Nat.mod_eq_of_lt hsize]
    · rw [delimitedBytes, List.append_assoc]
  have hmessage := pbDecode_messageBytes hwf hwf hne hvalues (hvalues.fits hwf)
  rw [overlay_self hwf hvalues (length_defaults fields), merged_defaults hvalues] at hmessage
  rw [pbDecodeDelimited, hpart]
  show (pbDecode fields (messageBytes fields values)).map _ = _
  rw [hmessage]
  rfl

theorem foldlM_pbEncodeSubmessage (fields : PbMsgdesc) (messages : List (List UInt64))
    (s : PbOstream) :
    messages.foldlM (fun s m => pbEncodeSubmessage fields m s) s =
      pbWrite (messages.flatMap (delimitedBytes fields)) s := by
  induction messages generalizing s with
  | nil => exact (pbWrite_nil s).symm
  | cons m messages ih =>
      rw [List.foldlM_cons, List.flatMap_cons, pbWrite_append, pbEncodeSubmessage_eq_write]
      show (pbWrite _ s).bind _ = _
      congr 1
      funext s'
      exact ih s'

/-- Messages that are written behind their lengths are read one by one, and nothing is left. -/
theorem messages_roundTrip {n : Nat} {s : PbOstream} {messages : List (List UInt64)}
    (hwf : fields.WellFormed) (hne : fields ≠ []) (hvalues : ∀ m ∈ messages, fields.HasValues m)
    (hn : n < 2 ^ 32)
    (h : messages.foldlM (fun s m => pbEncodeSubmessage fields m s) (pbOstreamFromBuffer n) =
      .ok s) :
    pbDecodeMessages fields messages.length s.buf = .ok (messages, []) := by
  rw [foldlM_pbEncodeSubmessage] at h
  obtain ⟨hspace, rfl⟩ := pbWrite_ok_iff.mp h
  have hroom := hasRoom_fromBuffer.mp hspace
  rw [after_fromBuffer]
  show pbDecodeMessages fields messages.length (messages.flatMap (delimitedBytes fields)) = _
  clear h hspace
  induction messages with
  | nil => rfl
  | cons m messages ih =>
      obtain ⟨hm, hrest⟩ := List.forall_mem_cons.mp hvalues
      rw [List.flatMap_cons, List.length_append, delimitedBytes, List.length_append] at hroom
      have hfirst := pbDecodeDelimited_delimitedBytes hwf hne hm (by omega)
        (messages.flatMap (delimitedBytes fields))
      rw [List.flatMap_cons, List.length_cons, pbDecodeMessages, hfirst]
      show (pbDecodeMessages fields messages.length _).map _ = _
      rw [ih hrest (by omega)]
      rfl

theorem messages_roundTrip_switch :
    pbDecodeMessages acoSimSwitchContextMsg 2 [4, 0x08, 1, 0x10, 2, 0] =
      .ok ([[1, 2, 0, 0, 0], [0, 0, 0, 0, 0]], []) :=
  have hencode : [[1, 2, 0, 0, 0], [0, 0, 0, 0, 0]].foldlM
      (fun s m => pbEncodeSubmessage acoSimSwitchContextMsg m s) (pbOstreamFromBuffer 40) =
        .ok ⟨false, 40, 6, [4, 0x08, 1, 0x10, 2, 0]⟩ := rfl
  messages_roundTrip acoSimSwitchContextMsg_wellFormed (by decide) (by decide) (by decide) hencode

end ACoral
