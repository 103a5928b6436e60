import Mathlib.Data.List.Basic
import Mathlib.Tactic.Common
import Mathlib.Algebra.Group.Nat.Defs

/-!
# `ACoral.Kernel.PbCommon`: the messages of `components/acosim` and their descriptors

A message is described by the list of its fields (`pb_msgdesc_t`), in the order of their tags.
`acosim.pb.h` has three of them. Their fields are numbers of 32 or 64 bits, and strings with a
callback. No callback is set in the initial values of a message, and none is set here.

`pbFieldIterFind` is the search of `pb_common.c`: it goes around the list from where the last
search ended, and compares six bits of a tag before it looks at the tag.
-/

set_option autoImplicit false

namespace ACoral

/-- The texts that `PB_RETURN_ERROR` is called with. -/
inductive PbError where
  /-- "stream full" -/
  | streamFull
  /-- "submsg size changed" -/
  | submsgSizeChanged
  /-- "end-of-stream" -/
  | endOfStream
  /-- "varint overflow" -/
  | varintOverflow
  /-- "integer too large" -/
  | integerTooLarge
  /-- "wrong wire type" -/
  | wrongWireType
  /-- "invalid wire_type" -/
  | invalidWireType
  /-- "zero tag" -/
  | zeroTag
  /-- "parent stream too short" -/
  | parentStreamTooShort
deriving DecidableEq, Repr

/-- `pb_wire_type_t`, by its number. -/
abbrev PbWireType := Nat

/-- `PB_WT_VARINT`. -/
def PB_WT_VARINT : PbWireType := 0

/-- `PB_WT_64BIT`. -/
def PB_WT_64BIT : PbWireType := 1

/-- `PB_WT_STRING`. -/
def PB_WT_STRING : PbWireType := 2

/-- `PB_WT_32BIT`. -/
def PB_WT_32BIT : PbWireType := 5

/-- The types of the fields: two static ones, and a string with a callback. -/
inductive PbKind where
  | uint32
  | uint64
  | callback
deriving DecidableEq, Repr

/-- A field of a message. -/
structure PbField where
  tag : Nat
  kind : PbKind
deriving DecidableEq, Repr

/-- `pb_msgdesc_t`. -/
abbrev PbMsgdesc := List PbField

/-- `AcoSimCore_msg`: `id`, `name`, `cpuFrequency`. -/
def acoSimCoreMsg : PbMsgdesc := [⟨1, .uint32⟩, ⟨2, .callback⟩, ⟨3, .uint64⟩]

/-- `AcoSimTask_msg`: `taskId`, `taskPolicy`, `taskPrio`, `taskPeriod`, `taskSuperCycle`,
`taskCoreId`, `taskCreateTick`, `taskName`, `taskDesc`. -/
def acoSimTaskMsg : PbMsgdesc :=
  [⟨1, .uint32⟩, ⟨2, .uint32⟩, ⟨3, .uint32⟩, ⟨4, .uint32⟩, ⟨5, .uint32⟩, ⟨6, .uint32⟩,
    ⟨7, .uint32⟩, ⟨8, .callback⟩, ⟨9, .callback⟩]

/-- `AcoSimSwitchContext_msg`: `coreId`, `pushTaskId`, `popTaskId`, `switchStartTick`,
`switchEndTick`. -/
def acoSimSwitchContextMsg : PbMsgdesc :=
  [⟨1, .uint32⟩, ⟨2, .uint32⟩, ⟨3, .uint32⟩, ⟨4, .uint64⟩, ⟨5, .uint64⟩]

/-- `AcoSimSwitchContext_size`. -/
def AcoSimSwitchContext_size : Nat := 40

/-- A descriptor as the generator makes them: the tags ascend, and are numbers that a tag can
have on the wire. -/
structure PbMsgdesc.WellFormed (desc : PbMsgdesc) : Prop where
  sorted : desc.Pairwise fun f g => f.tag < g.tag
  bounds : ∀ f ∈ desc, 1 ≤ f.tag ∧ f.tag < 2 ^ 29

/-- A number is a value of the field. -/
def PbKind.Fits (kind : PbKind) (value : UInt64) : Prop :=
  match kind with
  | .uint32   => value.toNat < 2 ^ 32
  | .uint64   => True
  | .callback => value = 0

instance (kind : PbKind) (value : UInt64) : Decidable (kind.Fits value) := by
  unfold PbKind.Fits
  cases kind <;> infer_instance

/-- The numbers are values of the fields. A field with a callback has no number, and takes the
place of a 0. -/
def PbMsgdesc.HasValues (desc : PbMsgdesc) (values : List UInt64) : Prop :=
  List.Forall₂ (fun f v => f.kind.Fits v) desc values

instance (desc : PbMsgdesc) (values : List UInt64) : Decidable (desc.HasValues values) :=
  inferInstanceAs (Decidable (List.Forall₂ (fun f v => f.kind.Fits v) desc values))

/-! ### The field iterator -/

/-- What `pb_field_iter_t` says of the current field. -/
structure PbFieldIter where
  index : Nat
  tag : Nat
deriving DecidableEq, Repr

/-- The tag of the field at `index`. -/
def PbMsgdesc.tagAt (desc : PbMsgdesc) (index : Nat) : Nat := ((desc[index]?).map PbField.tag).getD 0

/-- `load_descriptor_values`. -/
def PbMsgdesc.load (desc : PbMsgdesc) (index : Nat) : PbFieldIter := ⟨index, desc.tagAt index⟩

/-- `largest_tag`: the tag of the last field. -/
def PbMsgdesc.largestTag (desc : PbMsgdesc) : Nat := desc.tagAt (desc.length - 1)

/-- `pb_field_iter_begin`. -/
def pbFieldIterBegin (desc : PbMsgdesc) : PbFieldIter := desc.load 0

/-- `advance_iterator`. -/
def advanceIterator (desc : PbMsgdesc) (index : Nat) : Nat :=
  if index + 1 ≥ desc.length then 0 else index + 1

/-- The loop of `pb_field_iter_find`. It comes back to `start` within a round for each field
and one more. -/
def pbFindLoop (desc : PbMsgdesc) (tag start : Nat) :
    (rounds : Nat) → (index : Nat) → Bool × PbFieldIter
  | 0,          _     => (false, desc.load start)
  | rounds + 1, index =>
      let index := advanceIterator desc index
      if desc.tagAt index &&& 0x3F = tag &&& 0x3F ∧ desc.tagAt index = tag then
        (true, desc.load index)
      else if index ≠ start then pbFindLoop desc tag start rounds index
      else (false, desc.load start)

/-- `pb_field_iter_find`. For a tag that is smaller the search starts from the beginning. -/
def pbFieldIterFind (desc : PbMsgdesc) (iter : PbFieldIter) (tag : Nat) : Bool × PbFieldIter :=
  if iter.tag = tag then (true, iter)
  else if tag > desc.largestTag then (false, iter)
  else
    pbFindLoop desc tag iter.index (desc.length + 1)
      (if tag < iter.tag then desc.length else iter.index)

end ACoral
