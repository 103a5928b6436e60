import Mathlib.Data.BitVec
import Mathlib.Logic.Function.Basic
import Mathlib.Tactic.Common

/-!
# `ACoral.Kernel.Bitops`: the bit operations of `kernel/src/bitops.c`

A bitmap is an array of 32-bit words. An array of the C code is
modelled as a map from indices to contents (`Bitmap`), because the
kernel indexes its arrays with signed integers and nothing checks the
bounds: a cell outside the words that were allocated is simply a cell
that holds whatever the memory holds there.

Every caller passes an unsigned bit number, so `nr >> 5` and `nr & 31`
are division and remainder by 32.
-/

set_option autoImplicit false

namespace ACoral

/-- An `acoral_u32` array used as a bitmap. -/
abbrev Bitmap := Int → BitVec 32

/-- One line of `acoral_ffs`: when the masked half still has a set
bit, the answer drops by `h` and the word moves up by `h`. -/
def ffsStep (mask : BitVec 32) (h : Nat) (kw : Nat × BitVec 32) : Nat × BitVec 32 :=
  if kw.2 &&& mask ≠ 0 then (kw.1 - h, kw.2 <<< h) else kw

/-- `acoral_ffs`: the lowest set bit of a word, by binary search. An
empty word answers 31. -/
def acoralFfs (word : BitVec 32) : Nat :=
  let kw := (31, word)
  let kw := ffsStep 0x0000ffff#32 16 kw
  let kw := ffsStep 0x00ff0000#32 8 kw
  let kw := ffsStep 0x0f000000#32 4 kw
  let kw := ffsStep 0x30000000#32 2 kw
  if kw.2 &&& 0x40000000#32 ≠ 0 then kw.1 - 1 else kw.1

/-- The loop of `acoral_find_first_bit` from word `off`, with `rem`
words left. The word is read before the bound is tested, so the
search that finds nothing answers with the word after the last. -/
def findFirstBitFrom (b : Bitmap) : (rem : Nat) → (off : Nat) → Nat
  | 0,       off => acoralFfs (b off) + off * 32
  | rem + 1, off =>
      if b off ≠ 0 then acoralFfs (b off) + off * 32 else findFirstBitFrom b rem (off + 1)

/-- `acoral_find_first_bit`: the lowest set bit over `length` words. -/
def acoralFindFirstBit (b : Bitmap) (length : Nat) : Nat := findFirstBitFrom b length 0

/-- `1UL << (nr & 31)`. -/
def bitMask (nr : Nat) : BitVec 32 := 1#32 <<< (nr % 32)

/-- `acoral_set_bit`. -/
def acoralSetBit (nr : Nat) (bitmap : Bitmap) : Bitmap :=
  Function.update bitmap (nr / 32 : Nat) (bitmap (nr / 32 : Nat) ||| bitMask nr)

/-- `acoral_clear_bit`. -/
def acoralClearBit (nr : Nat) (bitmap : Bitmap) : Bitmap :=
  Function.update bitmap (nr / 32 : Nat) (bitmap (nr / 32 : Nat) &&& ~~~ bitMask nr)

/-- `acoral_get_bit`, as the truth value its callers test. -/
def acoralGetBit (nr : Nat) (bitmap : Bitmap) : Bool :=
  decide (bitmap (nr / 32 : Nat) &&& bitMask nr ≠ 0)

end ACoral
