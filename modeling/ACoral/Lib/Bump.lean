import Mathlib.Data.List.Basic
import Mathlib.Data.List.Pairwise

/-!
# `ACoral.Lib.Bump`: blocks cut off the front of a region

A bump allocator hands out the memory of a region from its start on, one block behind the
other. Its only state is the length of what it has handed out, the `index`. A block is a
pair of an address and a length.

`Packed start stop index blocks` says that the blocks of such an allocator lie in what it
has handed out of the region from `start` to `stop`, and apart from each other.

- `packed_nil`: the allocator of an unused region.
- `Packed.grant`: a block that fits behind the others.
- `Packed.apart_of_regions`: the blocks of two regions that do not overlap.
-/

set_option autoImplicit false

namespace ACoral.Lib

/-- No address is in both blocks. -/
def BlocksApart (p q : Nat × Nat) : Prop := p.1 + p.2 ≤ q.1 ∨ q.1 + q.2 ≤ p.1

/-- The block lies in the region from `start` to `stop`. -/
def BlockIn (start stop : Nat) (p : Nat × Nat) : Prop := start ≤ p.1 ∧ p.1 + p.2 ≤ stop

/-- The blocks that a bump allocator has handed out of a region. -/
structure Packed (start stop index : Nat) (blocks : List (Nat × Nat)) : Prop where
  index_le : start + index ≤ stop
  used : ∀ p ∈ blocks, BlockIn start (start + index) p
  apart : blocks.Pairwise BlocksApart

theorem packed_nil {start stop : Nat} (h : start ≤ stop) : Packed start stop 0 [] :=
  ⟨h, by simp, List.Pairwise.nil⟩

namespace Packed

variable {start stop start' stop' index index' n : Nat} {blocks blocks' : List (Nat × Nat)}

/-- What has been handed out lies in the region. -/
theorem inside (h : Packed start stop index blocks) : ∀ p ∈ blocks, BlockIn start stop p := by
  intro p hp
  have hused := h.used p hp
  exact ⟨hused.1, Nat.le_trans hused.2 h.index_le⟩

/-- A block that fits goes behind the others. -/
theorem grant (h : Packed start stop index blocks) (hfits : start + index + n ≤ stop) :
    Packed start stop (index + n) ((start + index, n) :: blocks) where
  index_le := by omega
  used := by
    intro p hp
    rcases List.mem_cons.mp hp with rfl | hp
    · exact ⟨Nat.le_add_right _ _, by omega⟩
    · have hused := h.used p hp
      exact ⟨hused.1, Nat.le_trans hused.2 (by omega)⟩
  apart := by
    refine List.pairwise_cons.mpr ⟨?_, h.apart⟩
    intro p hp
    exact Or.inr (h.used p hp).2

/-- The blocks of two regions are apart if the regions are. -/
theorem apart_of_regions (h : Packed start stop index blocks)
    (h' : Packed start' stop' index' blocks') (hregions : stop ≤ start' ∨ stop' ≤ start) :
    (blocks ++ blocks').Pairwise BlocksApart := by
  refine List.pairwise_append.mpr ⟨h.apart, h'.apart, ?_⟩
  intro p hp q hq
  have hin := h.inside p hp
  have hin' := h'.inside q hq
  rcases hregions with hle | hle
  · exact Or.inl (Nat.le_trans hin.2 (Nat.le_trans hle hin'.1))
  · exact Or.inr (Nat.le_trans hin'.2 (Nat.le_trans hle hin.1))

end Packed

end ACoral.Lib
