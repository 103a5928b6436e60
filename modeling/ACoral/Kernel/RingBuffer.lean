import Mathlib.Data.Vector.Basic

/-!
# `ACoral.Kernel.RingBuffer`: `ringbuffer.c`

The ring buffer of bytes. `tail_index` is where the oldest element is,
`head_index` where the next one goes; both move on under the mask
`ring_mask`. An access outside of the buffer, and a failed `CAT_ASSERT`, are
`none`. Pointers are not `NULL`.
-/

set_option autoImplicit false

namespace ACoral

/-- `CAT_EOK`. -/
def CAT_EOK : BitVec 32 := 0

/-- `CAT_ERROR`. -/
def CAT_ERROR : BitVec 32 := -1

/-- `cat_ringbuffer_t`. -/
structure CatRingbuffer where
  /-- the memory at `p_buffer` -/
  pBuffer : List (BitVec 8)
  ringMask : BitVec 32
  tailIndex : BitVec 32
  headIndex : BitVec 32
  deriving DecidableEq

/-- `IS_POWER_OF_TWO`. -/
def isPowerOfTwo (num : BitVec 32) : Bool := num &&& (num - 1) = 0

/-- `RINGBUFFER_INDEX_MOVE_FOWARD`. -/
def CatRingbuffer.moveForward (rb : CatRingbuffer) (index : BitVec 32) : BitVec 32 :=
  (index + 1) &&& rb.ringMask

/-- `cat_ringbuffer_init`. -/
def catRingbufferInit (pBufferSpace : List (BitVec 8)) (bufferSize : BitVec 32) :
    Option CatRingbuffer :=
  if isPowerOfTwo bufferSize then
    some { pBuffer := pBufferSpace, ringMask := bufferSize - 1, tailIndex := 0, headIndex := 0 }
  else none

/-- `cat_ringbuffer_clear`. -/
def catRingbufferClear (rb : CatRingbuffer) : CatRingbuffer :=
  { rb with tailIndex := 0, headIndex := 0 }

/-- `cat_ringbuffer_is_full`. -/
def catRingbufferIsFull (rb : CatRingbuffer) : Bool :=
  (rb.headIndex - rb.tailIndex) &&& rb.ringMask = rb.ringMask

/-- `cat_ringbuffer_is_empty`. -/
def catRingbufferIsEmpty (rb : CatRingbuffer) : Bool := rb.headIndex = rb.tailIndex

/-- The write of `cat_ringbuffer_put`. -/
def CatRingbuffer.write (rb : CatRingbuffer) (data : BitVec 8) : Option CatRingbuffer :=
  if rb.headIndex.toNat < rb.pBuffer.length then
    some { rb with
      pBuffer := rb.pBuffer.set rb.headIndex.toNat data
      headIndex := rb.moveForward rb.headIndex }
  else none

/-- `cat_ringbuffer_put`. A full buffer gives up its oldest element. -/
def catRingbufferPut (rb : CatRingbuffer) (data : BitVec 8) :
    Option (BitVec 32 × CatRingbuffer) :=
  if catRingbufferIsFull rb then
    ({ rb with tailIndex := rb.moveForward rb.tailIndex }.write data).map fun rb => (CAT_ERROR, rb)
  else (rb.write data).map fun rb => (CAT_EOK, rb)

/-- `cat_ringbuffer_get`: the return value, and what is written to `*p_data`. -/
def catRingbufferGet (rb : CatRingbuffer) :
    Option ((BitVec 32 × Option (BitVec 8)) × CatRingbuffer) :=
  if catRingbufferIsEmpty rb = false then
    rb.pBuffer[rb.tailIndex.toNat]?.map fun data =>
      ((CAT_EOK, some data), { rb with tailIndex := rb.moveForward rb.tailIndex })
  else some ((CAT_ERROR, none), rb)

/-- The loop of `cat_ringbuffer_put_more` over what is left of the input. -/
def putMoreLoop : (ret : BitVec 32) → CatRingbuffer → List (BitVec 8) →
    Option (BitVec 32 × CatRingbuffer)
  | ret, rb, []           => some (ret, rb)
  | ret, rb, data :: rest =>
      (catRingbufferPut rb data).bind fun res => putMoreLoop (ret + res.1) res.2 rest

/-- `cat_ringbuffer_put_more` of the `size` bytes at `p_data`. -/
def catRingbufferPutMore (rb : CatRingbuffer) (size : BitVec 32)
    (pData : List.Vector (BitVec 8) size.toNat) : Option (BitVec 32 × CatRingbuffer) :=
  (putMoreLoop 0 rb pData.toList).map fun res =>
    (if res.1 ≠ 0 then CAT_ERROR else res.1, res.2)

/-- The operations. -/
inductive RingbufferOp where
  | put (data : BitVec 8)
  | putMore (size : BitVec 32) (pData : List.Vector (BitVec 8) size.toNat)
  | get
  | clear

/-- The return value of a call (`clear` has none), and what `get` writes. -/
structure RingbufferResult where
  ret : Option (BitVec 32)
  data : Option (BitVec 8)
  deriving DecidableEq

/-- One call. -/
def ringbufferStep (rb : CatRingbuffer) : RingbufferOp → Option (RingbufferResult × CatRingbuffer)
  | .put data           =>
      (catRingbufferPut rb data).map fun res => (⟨some res.1, none⟩, res.2)
  | .putMore size pData =>
      (catRingbufferPutMore rb size pData).map fun res => (⟨some res.1, none⟩, res.2)
  | .get                => (catRingbufferGet rb).map fun res => (⟨some res.1.1, res.1.2⟩, res.2)
  | .clear              => some (⟨none, none⟩, catRingbufferClear rb)

/-! ### The bulk read -/

/-- The loop of `cat_ringbuffer_get_more`, with `cnt` bytes asked for so far and
`out` written to `p_data`. The condition stands behind the body. -/
def getMoreLoop (size : BitVec 32) : (fuel : Nat) → CatRingbuffer → (cnt : BitVec 32) →
    (out : List (BitVec 8)) → Option ((BitVec 32 × List (BitVec 8)) × CatRingbuffer)
  | 0,        _,  _,   _   => none
  | fuel + 1, rb, cnt, out =>
      (catRingbufferGet rb).bind fun ((err, data), rb) =>
        let cnt := cnt + 1
        let out := out ++ data.toList
        if cnt < size ∧ err = CAT_EOK then getMoreLoop size fuel rb cnt out
        else some ((cnt, out), rb)

/-- `cat_ringbuffer_get_more`: the return value, and the bytes written from
`p_data` on. The loop counts up to `size`. -/
def catRingbufferGetMore (rb : CatRingbuffer) (size : BitVec 32) :
    Option ((BitVec 32 × List (BitVec 8)) × CatRingbuffer) :=
  if catRingbufferIsEmpty rb = false then getMoreLoop size (size.toNat + 1) rb 0 []
  else some ((0, []), rb)

/-- The calls, with the bulk read. -/
inductive RingbufferCall where
  | op (op : RingbufferOp)
  | getMore (size : BitVec 32)

/-- What a call leaves. -/
def ringbufferCall (rb : CatRingbuffer) : RingbufferCall → Option CatRingbuffer
  | .op op        => (ringbufferStep rb op).map Prod.snd
  | .getMore size => (catRingbufferGetMore rb size).map Prod.snd

end ACoral
