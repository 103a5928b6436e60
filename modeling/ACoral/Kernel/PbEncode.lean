import ACoral.Kernel.PbCommon

/-!
# `ACoral.Kernel.PbEncode`: `pb_encode.c`

A stream is a buffer with room for `maxSize` bytes, or a sizing stream, which only counts. The
bytes in the buffer are the list `buf`.

`pb_encode_varint_32` works on the two halves of a number. The low one goes out in its first
four rounds; the fifth byte has bits of both.
-/

set_option autoImplicit false

namespace ACoral

/-- `pb_ostream_t`. -/
structure PbOstream where
  /-- `callback == NULL` -/
  sizing : Bool
  maxSize : Nat
  bytesWritten : Nat
  buf : List UInt8
deriving DecidableEq, Repr

/-- `pb_ostream_from_buffer`. -/
def pbOstreamFromBuffer (bufsize : Nat) : PbOstream := ⟨false, bufsize, 0, []⟩

/-- `PB_OSTREAM_SIZING`. -/
def PB_OSTREAM_SIZING : PbOstream := ⟨true, 0, 0, []⟩

/-- `pb_write`. -/
def pbWrite (bytes : List UInt8) (s : PbOstream) : Except PbError PbOstream :=
  if bytes.length > 0 ∧ ¬ s.sizing then
    if s.bytesWritten + bytes.length > s.maxSize then .error .streamFull
    else .ok { s with bytesWritten := s.bytesWritten + bytes.length, buf := s.buf ++ bytes }
  else .ok { s with bytesWritten := s.bytesWritten + bytes.length }

/-! ### Numbers -/

/-- The first loop of `pb_encode_varint_32`: the bytes that go to the buffer, and `byte`. -/
def varintLow : (rounds : Nat) → (low high : UInt32) → (byte : UInt8) → List UInt8 × UInt8
  | 0,          _,   _,    byte => ([], byte)
  | rounds + 1, low, high, byte =>
      if low ≠ 0 ∨ high ≠ 0 then
        let (out, last) := varintLow rounds (low >>> 7) high (low &&& 0x7F).toUInt8
        ((byte ||| 0x80) :: out, last)
      else ([], byte)

/-- The second loop, on the 29 bits that are left of `high`: five rounds are enough. -/
def varintHigh : (rounds : Nat) → (high : UInt32) → (byte : UInt8) → List UInt8 × UInt8
  | 0,          _,    byte => ([], byte)
  | rounds + 1, high, byte =>
      if high ≠ 0 then
        let (out, last) := varintHigh rounds (high >>> 7) (high &&& 0x7F).toUInt8
        ((byte ||| 0x80) :: out, last)
      else ([], byte)

/-- The bytes of `pb_encode_varint_32`. -/
def varint32Bytes (low high : UInt32) : List UInt8 :=
  let (out, byte) := varintLow 4 (low >>> 7) high (low &&& 0x7F).toUInt8
  if high ≠ 0 then
    let (out', byte) := varintHigh 5 (high >>> 3) (byte ||| ((high &&& 0x07) <<< 4).toUInt8)
    out ++ out' ++ [byte]
  else out ++ [byte]

/-- The bytes of `pb_encode_varint`. -/
def varintBytes (value : UInt64) : List UInt8 :=
  if value ≤ 0x7F then [value.toUInt8] else varint32Bytes value.toUInt32 (value >>> 32).toUInt32

/-- `pb_encode_varint`. -/
def pbEncodeVarint (value : UInt64) (s : PbOstream) : Except PbError PbOstream :=
  pbWrite (varintBytes value) s

/-- The number that `pb_encode_svarint` encodes for `value`, whose bits are given. -/
def zigzagged (value : UInt64) : UInt64 :=
  let mask := (0xFFFFFFFFFFFFFFFF : UInt64) >>> 1
  if value.toInt64 < 0 then ~~~((value &&& mask) <<< 1) else value <<< 1

/-- `pb_encode_svarint`. -/
def pbEncodeSvarint (value : Int64) (s : PbOstream) : Except PbError PbOstream :=
  pbEncodeVarint (zigzagged value.toUInt64) s

/-- `pb_encode_tag`. -/
def pbEncodeTag (wiretype : PbWireType) (fieldNumber : UInt32) (s : PbOstream) :
    Except PbError PbOstream :=
  pbEncodeVarint ((fieldNumber.toUInt64 <<< 3) ||| UInt64.ofNat wiretype) s

/-! ### Messages -/

/-- `encode_field`. A 0 is left out, and so is a field whose callback is not set. -/
def encodeField (field : PbField) (value : UInt64) (s : PbOstream) : Except PbError PbOstream :=
  match field.kind with
  | .callback => .ok s
  | _         =>
      if value = 0 then .ok s
      else (pbEncodeTag PB_WT_VARINT (UInt32.ofNat field.tag) s).bind (pbEncodeVarint value)

/-- `pb_encode`, for the values of the fields in their order. -/
def pbEncode : (fields : PbMsgdesc) → (values : List UInt64) → PbOstream → Except PbError PbOstream
  | field :: fields, value :: values, s => (encodeField field value s).bind (pbEncode fields values)
  | _,               _,               s => .ok s

/-- `pb_get_encoded_size`. -/
def pbGetEncodedSize (fields : PbMsgdesc) (values : List UInt64) : Except PbError Nat :=
  (pbEncode fields values PB_OSTREAM_SIZING).map PbOstream.bytesWritten

/-- `pb_encode_submessage`: the size of the message first, and then the message, in a substream
that has room for this size. -/
def pbEncodeSubmessage (fields : PbMsgdesc) (values : List UInt64) (s : PbOstream) :
    Except PbError PbOstream :=
  (pbGetEncodedSize fields values).bind fun size =>
    (pbEncodeVarint (UInt64.ofNat size) s).bind fun s =>
      if s.sizing then .ok { s with bytesWritten := s.bytesWritten + size }
      else if s.bytesWritten + size > s.maxSize then .error .streamFull
      else
        (pbEncode fields values { s with maxSize := size, bytesWritten := 0 }).bind fun sub =>
          if sub.bytesWritten ≠ size then .error .submsgSizeChanged
          else .ok { s with bytesWritten := s.bytesWritten + sub.bytesWritten, buf := sub.buf }

end ACoral
