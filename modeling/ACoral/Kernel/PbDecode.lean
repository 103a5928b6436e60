import ACoral.Kernel.PbCommon

/-!
# `ACoral.Kernel.PbDecode`: `pb_decode.c`

A stream is what is left of a buffer. A function gives its result and the rest of the stream,
or the error.

`pb_decode_varint32` is a decoder of its own for numbers of 32 bits. It also takes negative
numbers, which have ten bytes on the wire.

`pbDecode` fills in a message whose fields are all 0 at the start. A field that the descriptor
does not have is skipped; so is one whose callback is not set.
-/

set_option autoImplicit false

namespace ACoral

/-- `pb_readbyte`. -/
def pbReadbyte : List UInt8 → Except PbError (UInt8 × List UInt8)
  | []          => .error .endOfStream
  | b :: stream => .ok (b, stream)

/-- `pb_read`. -/
def pbRead (count : Nat) (stream : List UInt8) : Except PbError (List UInt8 × List UInt8) :=
  if count = 0 then .ok ([], stream)
  else if stream.length < count then .error .endOfStream
  else .ok (stream.take count, stream.drop count)

/-! ### Numbers -/

/-- The loop of `pb_decode_varint`. -/
def decodeVarintLoop : (stream : List UInt8) → (bitpos : Nat) → (result : UInt64) →
    Except PbError (UInt64 × List UInt8)
  | [],             _,      _      => .error .endOfStream
  | byte :: stream, bitpos, result =>
      if bitpos ≥ 63 ∧ byte &&& 0xFE ≠ 0 then .error .varintOverflow
      else
        let result := result ||| ((byte &&& 0x7F).toUInt64 <<< UInt64.ofNat bitpos)
        if byte &&& 0x80 ≠ 0 then decodeVarintLoop stream (bitpos + 7) result
        else .ok (result, stream)

/-- `pb_decode_varint`. -/
def pbDecodeVarint (stream : List UInt8) : Except PbError (UInt64 × List UInt8) :=
  decodeVarintLoop stream 0 0

/-- The byte of a varint of more than four bytes is one of a number of 32 bits. -/
def validExtension (bitpos : Nat) (result : UInt32) (byte : UInt8) : Bool :=
  let signExtension : UInt8 := if bitpos < 63 then 0xFF else 0x01
  byte &&& 0x7F = 0 ∨ result >>> 31 ≠ 0 ∧ byte = signExtension

/-- The loop of `pb_decode_varint32_eof`. -/
def decodeVarint32Loop : (stream : List UInt8) → (bitpos : Nat) → (result : UInt32) →
    Except PbError (UInt32 × List UInt8)
  | [],             _,      _      => .error .endOfStream
  | byte :: stream, bitpos, result =>
      if bitpos ≥ 32 then
        if bitpos ≥ 64 ∨ ¬ validExtension bitpos result byte then .error .varintOverflow
        else if byte &&& 0x80 ≠ 0 then decodeVarint32Loop stream (bitpos + 7) result
        else .ok (result, stream)
      else if bitpos = 28 then
        if byte &&& 0x70 ≠ 0 ∧ byte &&& 0x78 ≠ 0x78 then .error .varintOverflow
        else
          let result := result ||| ((byte &&& 0x0F).toUInt32 <<< UInt32.ofNat bitpos)
          if byte &&& 0x80 ≠ 0 then decodeVarint32Loop stream (bitpos + 7) result
          else .ok (result, stream)
      else
        let result := result ||| ((byte &&& 0x7F).toUInt32 <<< UInt32.ofNat bitpos)
        if byte &&& 0x80 ≠ 0 then decodeVarint32Loop stream (bitpos + 7) result
        else .ok (result, stream)

/-- `pb_decode_varint32`. A stream that is not empty has no `eof`. -/
def pbDecodeVarint32 (stream : List UInt8) : Except PbError (UInt32 × List UInt8) :=
  (pbReadbyte stream).bind fun (byte, stream) =>
    if byte &&& 0x80 = 0 then .ok (byte.toUInt32, stream)
    else decodeVarint32Loop stream 7 (byte &&& 0x7F).toUInt32

/-- `pb_decode_svarint`. -/
def pbDecodeSvarint (stream : List UInt8) : Except PbError (Int64 × List UInt8) :=
  (pbDecodeVarint stream).map fun (value, stream) =>
    ((if value &&& 1 ≠ 0 then ~~~(value >>> 1) else value >>> 1).toInt64, stream)

/-- `pb_decode_tag`: the wire type, and the tag. -/
def pbDecodeTag (stream : List UInt8) : Except PbError (PbWireType × Nat × List UInt8) :=
  (pbDecodeVarint32 stream).map fun (temp, stream) =>
    ((temp &&& 7).toNat, (temp >>> 3).toNat, stream)

/-! ### Skipping -/

/-- `pb_skip_varint`. -/
def pbSkipVarint : List UInt8 → Except PbError (List UInt8)
  | []             => .error .endOfStream
  | byte :: stream => if byte &&& 0x80 ≠ 0 then pbSkipVarint stream else .ok stream

/-- `pb_skip_string`. -/
def pbSkipString (stream : List UInt8) : Except PbError (List UInt8) :=
  (pbDecodeVarint32 stream).bind fun (length, stream) =>
    (pbRead length.toNat stream).map Prod.snd

/-- `pb_skip_field`. -/
def pbSkipField (wireType : PbWireType) (stream : List UInt8) : Except PbError (List UInt8) :=
  if wireType = PB_WT_VARINT then pbSkipVarint stream
  else if wireType = PB_WT_64BIT then (pbRead 8 stream).map Prod.snd
  else if wireType = PB_WT_STRING then pbSkipString stream
  else if wireType = PB_WT_32BIT then (pbRead 4 stream).map Prod.snd
  else .error .invalidWireType

/-- The loop of `read_raw_value`, with room for `maxSize` more bytes. -/
def readRawVarint : (maxSize : Nat) → List UInt8 → Except PbError (List UInt8)
  | 0,           _              => .error .varintOverflow
  | _ + 1,       []             => .error .endOfStream
  | maxSize + 1, byte :: stream =>
      if byte &&& 0x80 ≠ 0 then readRawVarint maxSize stream else .ok stream

/-- `pb_make_string_substream`: the substream, and the rest of the stream. -/
def pbMakeStringSubstream (stream : List UInt8) : Except PbError (List UInt8 × List UInt8) :=
  (pbDecodeVarint32 stream).bind fun (size, stream) =>
    if stream.length < size.toNat then .error .parentStreamTooShort
    else .ok (stream.take size.toNat, stream.drop size.toNat)

/-! ### Messages -/

/-- `decode_callback_field`, for a callback that is not set: a string is closed unread, and any
other value goes to a buffer of ten bytes. -/
def decodeCallbackField (wireType : PbWireType) (stream : List UInt8) :
    Except PbError (List UInt8) :=
  if wireType = PB_WT_STRING then (pbMakeStringSubstream stream).map Prod.snd
  else if wireType = PB_WT_VARINT then readRawVarint 10 stream
  else if wireType = PB_WT_64BIT then (pbRead 8 stream).map Prod.snd
  else if wireType = PB_WT_32BIT then (pbRead 4 stream).map Prod.snd
  else .error .invalidWireType

/-- `decode_static_field` of a number: `pb_dec_varint` behind the check of the wire type. -/
def decodeStaticField (kind : PbKind) (wireType : PbWireType) (stream : List UInt8) :
    Except PbError (UInt64 × List UInt8) :=
  if wireType ≠ PB_WT_VARINT then .error .wrongWireType
  else
    (pbDecodeVarint stream).bind fun (value, stream) =>
      let clamped := if kind = .uint64 then value else value.toUInt32.toUInt64
      if clamped ≠ value then .error .integerTooLarge else .ok (clamped, stream)

/-- `decode_field`: the values of the message, and the rest of the stream. -/
def decodeField (fields : PbMsgdesc) (index : Nat) (wireType : PbWireType) (values : List UInt64)
    (stream : List UInt8) : Except PbError (List UInt64 × List UInt8) :=
  match (fields[index]?).map PbField.kind with
  | none           => .ok (values, stream)
  | some .callback => (decodeCallbackField wireType stream).map fun stream => (values, stream)
  | some kind      =>
      (decodeStaticField kind wireType stream).map fun (value, stream) =>
        (values.set index value, stream)

/-- The loop of `pb_decode_inner`. Each round takes the byte of a tag at least. -/
def pbDecodeLoop (fields : PbMsgdesc) :
    (rounds : Nat) → PbFieldIter → (values : List UInt64) → (stream : List UInt8) →
    Except PbError (List UInt64)
  | 0,          _,    values, _      => .ok values
  | rounds + 1, iter, values, stream =>
      if stream = [] then .ok values
      else
        (pbDecodeTag stream).bind fun (wireType, tag, stream) =>
          if tag = 0 then .error .zeroTag
          else
            let (found, iter) := pbFieldIterFind fields iter tag
            if found then
              (decodeField fields iter.index wireType values stream).bind fun (values, stream) =>
                pbDecodeLoop fields rounds iter values stream
            else
              (pbSkipField wireType stream).bind fun stream =>
                pbDecodeLoop fields rounds iter values stream

/-- `pb_decode`. -/
def pbDecode (fields : PbMsgdesc) (stream : List UInt8) : Except PbError (List UInt64) :=
  pbDecodeLoop fields stream.length (pbFieldIterBegin fields) (fields.map fun _ => 0) stream

/-- `pb_decode_ex` with `PB_DECODE_DELIMITED`: the message, and the rest of the stream. -/
def pbDecodeDelimited (fields : PbMsgdesc) (stream : List UInt8) :
    Except PbError (List UInt64 × List UInt8) :=
  (pbMakeStringSubstream stream).bind fun (substream, stream) =>
    (pbDecode fields substream).map fun values => (values, stream)

end ACoral
