import Mathlib.Data.List.Chain
import ACoral.Kernel.VolMem

/-!
# `ACoral.Proofs.VolMem`: the first-fit allocator on a well-formed arena

An arena is a list of blocks that tile the memory between the bottom and
the top.

- `volScan_spec`: a search over whole blocks finds the first that fits.
- `volTake_arena`: taking a free block of an arena leaves an arena, in
  which that block is cut in two.
- `volMalloc_spec`: on every arena, `vol_malloc` answers `NULL` exactly
  when no free block has room, and otherwise takes one that has.
-/

set_option autoImplicit false

namespace ACoral

/-! ### Header words -/

/-- The header of a block. -/
def blockWord (size : Nat) (used : Bool) : BitVec 32 :=
  if used then blockUsedWord (BitVec.ofNat 32 size) else blockFreeWord (BitVec.ofNat 32 size)

/-- The bits of the constants, from bit 8 on. -/
theorem header_constants : ∀ i < 32,
    SIZE_MASK.getLsbD (8 + i) = decide (i < 24) ∧ MAGIC.getLsbD (8 + i) = false ∧
      (0x1#32).getLsbD (8 + i) = false := by
  unfold SIZE_MASK MAGIC
  decide

/-- A header tells the size of its block. -/
theorem blockGetSize_blockWord {size : Nat} (h : size < 2 ^ 24) (used : Bool) :
    blockGetSize (blockWord size used) = BitVec.ofNat 32 size := by
  refine BitVec.eq_of_getLsbD_eq fun i hi => ?_
  obtain ⟨hmask, hmagic, hone⟩ := header_constants i hi
  unfold blockGetSize SIZE_SHIFT
  rw [BitVec.getLsbD_ushiftRight, BitVec.getLsbD_and, hmask]
  by_cases h24 : i < 24
  · cases used <;>
      simp [blockWord, blockUsedWord, blockFreeWord, SIZE_SHIFT, hmagic, hone, h24]
      <;> omega
  · have hbit : size.testBit i = false :=
      Nat.testBit_lt_two_pow
        (Nat.lt_of_lt_of_le h (Nat.pow_le_pow_right (by decide) (Nat.not_lt.mp h24)))
    simp [h24, BitVec.getLsbD_ofNat, hbit]

/-- The tag is the lowest bit. -/
theorem blockIsUsed_eq (w : BitVec 32) : blockIsUsed w = w.getLsbD 0 := by
  have hone : ∀ i < 32, USETAG_MASK.getLsbD i = decide (i = 0) := by decide
  have hiff : w &&& USETAG_MASK = 1 ↔ w.getLsbD 0 = true := by
    constructor
    · intro hw
      have hbit := congrArg (fun v => v.getLsbD 0) hw
      simpa [USETAG_MASK] using hbit
    · intro hw
      refine BitVec.eq_of_getLsbD_eq fun i hi => ?_
      rw [BitVec.getLsbD_and, hone i hi, show (1 : BitVec 32) = USETAG_MASK from rfl, hone i hi]
      by_cases h0 : i = 0
      · simp [h0, hw]
      · simp [h0]
  unfold blockIsUsed
  rw [Bool.eq_iff_iff, decide_eq_true_iff, hiff]

/-- A header tells whether its block is used. -/
theorem blockIsUsed_blockWord (size : Nat) (used : Bool) :
    blockIsUsed (blockWord size used) = used := by
  rw [blockIsUsed_eq]
  cases used <;> simp [blockWord, blockUsedWord, blockFreeWord, SIZE_SHIFT, MAGIC]

/-- Clearing the two lowest bits rounds down to a multiple of 4. -/
theorem toNat_and_not_three (x : BitVec 32) : (x &&& ~~~ 3#32).toNat = x.toNat / 4 * 4 := by
  have hbits : ∀ i < 32, (~~~ 3#32).getLsbD i = decide (2 ≤ i) := by decide
  have heq : x &&& ~~~ 3#32 = (x >>> 2) <<< 2 := by
    refine BitVec.eq_of_getLsbD_eq fun i hi => ?_
    rw [BitVec.getLsbD_and, hbits i hi, BitVec.getLsbD_shiftLeft, BitVec.getLsbD_ushiftRight]
    by_cases h2 : 2 ≤ i
    · have hidx : 2 + (i - 2) = i := by omega
      simp [h2, hi, hidx, Nat.not_lt.mpr h2]
    · have hlt : i < 2 := by omega
      simp [h2, hlt]
  have hlt := x.isLt
  rw [heq, BitVec.toNat_shiftLeft, BitVec.toNat_ushiftRight, Nat.shiftLeft_eq,
    Nat.shiftRight_eq_div_pow]
  omega

/-- The bytes a request needs: its size rounded up to a multiple of 4,
and the header. -/
def needed (size : BitVec 32) : Nat := (size.toNat + 3) / 4 * 4 + 4

/-- The request that `vol_r_malloc` searches for. No step wraps around,
since the size is not negative. -/
theorem toNat_request {size : BitVec 32} (h : size.toNat < 2 ^ 31) :
    (((size + 3) &&& ~~~ 3#32) + 4).toNat = needed size := by
  have hround := toNat_and_not_three (size + 3)
  have hadd : (size + 3).toNat = size.toNat + 3 := by
    rw [BitVec.toNat_add, show (3 : BitVec 32).toNat = 3 by decide]
    omega
  rw [BitVec.toNat_add, hround, hadd, show (4 : BitVec 32).toNat = 4 by decide]
  unfold needed
  omega

/-! ### Arenas -/

/-- A block of the arena, header included. -/
structure Block where
  size : Nat
  used : Bool

/-- The bytes of a list of blocks. -/
def span (bs : List Block) : Nat := (bs.map Block.size).sum

@[simp] theorem span_nil : span [] = 0 := rfl

@[simp] theorem span_cons (b : Block) (bs : List Block) : span (b :: bs) = b.size + span bs := by
  simp [span]

@[simp] theorem span_append (bs cs : List Block) : span (bs ++ cs) = span bs + span cs := by
  simp [span]

/-- The blocks lie in memory one after the other, from the address `a`. -/
def Tiles (mem : Nat → BitVec 32) : Nat → List Block → Prop
  | _, []      => True
  | a, b :: bs => mem a = blockWord b.size b.used ∧ Tiles mem (a + b.size) bs

theorem tiles_append (mem : Nat → BitVec 32) (a : Nat) (bs cs : List Block) :
    Tiles mem a (bs ++ cs) ↔ Tiles mem a bs ∧ Tiles mem (a + span bs) cs := by
  induction bs generalizing a with
  | nil => simp [Tiles]
  | cons b bs ih =>
      rw [List.cons_append]
      simp only [Tiles, ih, span_cons, and_assoc, Nat.add_assoc]

/-- Blocks stay where they are when the memory of their addresses does. -/
theorem Tiles.congr {mem mem' : Nat → BitVec 32} {a : Nat} {bs : List Block}
    (h : Tiles mem a bs) (hpos : ∀ b ∈ bs, 0 < b.size)
    (hmem : ∀ x, a ≤ x → x < a + span bs → mem' x = mem x) : Tiles mem' a bs := by
  induction bs generalizing a with
  | nil => trivial
  | cons b bs ih =>
      have hb := hpos b List.mem_cons_self
      rw [span_cons] at hmem
      refine ⟨?_, ih h.2 (fun c hc => hpos c (List.mem_cons_of_mem _ hc)) fun x hx hx' => ?_⟩
      · rw [hmem a (Nat.le_refl a) (by omega)]
        exact h.1
      · exact hmem x (by omega) (by omega)

/-- A well-formed arena with the blocks `bs`: they tile it from bottom
to top, their sizes are positive multiples of 4, no two free ones are
neighbours, the arena is smaller than `2 ^ 24` bytes, and the rover is
on a block or at the top. -/
structure Arena (v : VolMem) (bs : List Block) : Prop where
  state : v.memState ≠ 0
  tiles : Tiles v.mem v.downP bs
  top : v.topP = v.downP + span bs
  sizes : ∀ b ∈ bs, 0 < b.size ∧ 4 ∣ b.size
  small : span bs < 2 ^ 24
  coalesced : bs.IsChain fun b c => b.used = true ∨ c.used = true
  rover : ∃ front back, bs = front ++ back ∧ v.freepP = v.downP + span front

/-! ### The search -/

/-- The block can hold the request. -/
def Fits (need : Nat) (b : Block) : Prop := b.used = false ∧ need ≤ b.size

/-- A search over whole blocks, up to their end. It finds the first one
that fits, or none does. The induction is on the blocks. -/
theorem volScan_spec {mem : Nat → BitVec 32} (size : BitVec 32) {a : Nat} {bs : List Block}
    (htiles : Tiles mem a bs) (hsizes : ∀ b ∈ bs, 0 < b.size) (hsmall : span bs < 2 ^ 24)
    (rounds : Nat) (hrounds : span bs ≤ rounds) :
    (∃ pre b post, bs = pre ++ b :: post ∧ Fits size.toNat b ∧
      volScan mem size (a + span bs) rounds a = .found (a + span pre)) ∨
    ((∀ b ∈ bs, ¬ Fits size.toNat b) ∧ volScan mem size (a + span bs) rounds a = .done) := by
  induction bs generalizing a rounds with
  | nil =>
      refine Or.inr ⟨by simp, ?_⟩
      cases rounds with
      | zero => rfl
      | succ rounds => simp [volScan]
  | cons b bs ih =>
      obtain ⟨hword, hrest⟩ := htiles
      have hb := hsizes b List.mem_cons_self
      rw [span_cons] at hsmall hrounds ⊢
      obtain ⟨n, rfl⟩ : ∃ n, rounds = n + 1 := Nat.exists_eq_add_of_lt (by omega : 0 < rounds)
        |>.imp fun n hn => by omega
      have hget : blockGetSize (mem a) = BitVec.ofNat 32 b.size := by
        rw [hword]
        exact blockGetSize_blockWord (by omega) b.used
      have hnat : (BitVec.ofNat 32 b.size).toNat = b.size := by
        rw [BitVec.toNat_ofNat]
        exact Nat.mod_eq_of_lt (by omega)
      have hne : BitVec.ofNat 32 b.size ≠ 0 := fun h0 => by
        rw [h0] at hnat
        have : (0 : BitVec 32).toNat = 0 := by decide
        omega
      have hused : blockIsUsed (mem a) = b.used := by rw [hword, blockIsUsed_blockWord]
      have hlt : (BitVec.ofNat 32 b.size < size) ↔ b.size < size.toNat := by
        rw [BitVec.lt_def, hnat]
      have hstep : volScan mem size (a + (b.size + span bs)) (n + 1) a =
          if b.used || decide (b.size < size.toNat) then
            volScan mem size (a + b.size + span bs) n (a + b.size)
          else .found a := by
        rw [volScan, if_pos (by omega)]
        simp only [hget, if_neg hne, hused, hnat, hlt, Nat.add_assoc]
      rw [hstep]
      by_cases hfit : Fits size.toNat b
      · have hcond : (b.used || decide (b.size < size.toNat)) = false := by
          simp [hfit.1, Nat.not_lt.mpr hfit.2]
        rw [hcond]
        exact Or.inl ⟨[], b, bs, rfl, hfit, by simp⟩
      · have hcond : (b.used || decide (b.size < size.toNat)) = true := by
          rw [Bool.or_eq_true, decide_eq_true_iff]
          by_cases hu : b.used = true
          · exact Or.inl hu
          · refine Or.inr (Nat.lt_of_not_le fun hle => hfit ⟨by simpa using hu, hle⟩)
        rw [hcond, if_pos rfl]
        rcases ih hrest (fun c hc => hsizes c (List.mem_cons_of_mem _ hc)) (by omega) n
          (by omega) with ⟨pre, c, post, rfl, hc, hscan⟩ | ⟨hno, hscan⟩
        · refine Or.inl ⟨b :: pre, c, post, rfl, hc, ?_⟩
          rw [hscan, span_cons, Nat.add_assoc]
        · refine Or.inr ⟨fun c hc => ?_, hscan⟩
          rcases List.mem_cons.mp hc with rfl | hc
          · exact hfit
          · exact hno c hc

/-! ### The allocation -/

/-- What a block becomes when a request takes it: its leading part is
used, and the rest, if any, is a free block. -/
def taken (need : Nat) (b : Block) : List Block :=
  ⟨need, true⟩ :: if b.size = need then [] else [⟨b.size - need, false⟩]

theorem span_taken {need : Nat} {b : Block} (h : need ≤ b.size) :
    span (taken need b) = b.size := by
  unfold taken
  split <;> simp <;> omega

/-- The blocks around a free one keep it apart from other free ones, and
so they do after it is taken. -/
theorem isChain_taken {need : Nat} {b : Block} {pre post : List Block} (hb : b.used = false)
    (h : (pre ++ b :: post).IsChain fun b c => b.used = true ∨ c.used = true) :
    (pre ++ (taken need b ++ post)).IsChain fun b c => b.used = true ∨ c.used = true := by
  obtain ⟨hpre, hpost, -⟩ := List.isChain_append.mp h
  obtain ⟨hhead, hpost⟩ := List.isChain_cons.mp hpost
  refine List.isChain_append.mpr ⟨hpre, ?_, fun x _ y hy => Or.inr ?_⟩
  · unfold taken
    refine List.isChain_cons.mpr ⟨fun y _ => Or.inl rfl, ?_⟩
    split
    · exact hpost
    · refine List.isChain_cons.mpr ⟨fun y hy => Or.inr ?_, hpost⟩
      exact (hhead y hy).resolve_left (by simp [hb])
  · simp only [taken, List.cons_append, List.head?_cons, Option.mem_some_iff] at hy
    rw [← hy]

/-- The memory after a request of `need` bytes has taken the block `b`
at `tp`. -/
def takenMem (mem : Nat → BitVec 32) (tp need : Nat) (b : Block) : Nat → BitVec 32 :=
  let mem := Function.update mem tp (blockWord need true)
  if b.size = need then mem
  else Function.update mem (tp + need) (blockWord (b.size - need) false)

/-- Only words of the block change. -/
theorem takenMem_of_outside {tp need : Nat} {b : Block} (hpos : 0 < need) (hneed : need ≤ b.size)
    (mem : Nat → BitVec 32) (a : Nat) (ha : a < tp ∨ tp + b.size ≤ a) :
    takenMem mem tp need b a = mem a := by
  have htp : a ≠ tp := by omega
  unfold takenMem
  by_cases he : b.size = need
  · simp [he, htp]
  · have hrest : a ≠ tp + need := by omega
    rw [if_neg he, Function.update_of_ne hrest, Function.update_of_ne htp]

/-- The block is now its parts. -/
theorem takenMem_tiles {tp need : Nat} {b : Block} (hpos : 0 < need)
    (mem : Nat → BitVec 32) : Tiles (takenMem mem tp need b) tp (taken need b) := by
  have hne : tp ≠ tp + need := by omega
  unfold takenMem taken
  by_cases he : b.size = need
  · simp [he, Tiles]
  · simp [he, Tiles, Function.update_of_ne hne]

/-- The memory, the rover and the answer of `volTake` at a free block
that is large enough. -/
theorem volTake_eq {v : VolMem} {size : BitVec 32} {tp : Nat} {b : Block}
    (hword : v.mem tp = blockWord b.size b.used) (hsmall : b.size < 2 ^ 24)
    (hneed : size.toNat ≤ b.size) :
    volTake v size tp = (some (tp + 4),
      { v with
        mem := takenMem v.mem tp size.toNat b
        freepP := tp + size.toNat
        mutex := v.mutex - 1 }) := by
  have hget : blockGetSize (v.mem tp) = BitVec.ofNat 32 b.size := by
    rw [hword]
    exact blockGetSize_blockWord hsmall b.used
  have hsize : BitVec.ofNat 32 size.toNat = size := by simp
  have hrest : BitVec.ofNat 32 b.size - size = BitVec.ofNat 32 (b.size - size.toNat) := by
    refine BitVec.eq_of_toNat_eq ?_
    rw [BitVec.toNat_sub_of_le, BitVec.toNat_ofNat, BitVec.toNat_ofNat,
      Nat.mod_eq_of_lt (by omega), Nat.mod_eq_of_lt (by omega)]
    rw [BitVec.le_def, BitVec.toNat_ofNat, Nat.mod_eq_of_lt (by omega)]
    exact hneed
  have hpos : (BitVec.ofNat 32 (b.size - size.toNat) > 0) ↔ b.size ≠ size.toNat := by
    rw [gt_iff_lt, BitVec.lt_def, BitVec.toNat_ofNat, Nat.mod_eq_of_lt (by omega)]
    show 0 < _ ↔ _
    omega
  unfold volTake takenMem
  simp only [hget, hrest, hpos, ne_eq, Nat.add_sub_cancel]
  by_cases he : b.size = size.toNat
  · simp [he, VolMem.write, VolMem.post, blockWord, hsize]
  · simp [he, VolMem.write, VolMem.post, blockWord, hsize]

/-- The arena after a request has taken a block of it. -/
theorem volTake_arena {v : VolMem} {size : BitVec 32} {pre post : List Block} {b : Block}
    (h : Arena v (pre ++ b :: post)) (hfit : Fits size.toNat b) (hpos : 0 < size.toNat)
    (hfour : 4 ∣ size.toNat) :
    ∃ v', volTake v.pend size (v.downP + span pre) = (some (v.downP + span pre + 4), v') ∧
      Arena v' (pre ++ (taken size.toNat b ++ post)) ∧
      v'.downP = v.downP ∧ v'.topP = v.topP ∧
      ∀ a, a < v.downP + span pre ∨ v.downP + span pre + b.size ≤ a → v'.mem a = v.mem a := by
  obtain ⟨hb, hneed⟩ := hfit
  have hspan : span (pre ++ (taken size.toNat b ++ post)) = span (pre ++ b :: post) := by
    simp only [span_append, span_cons, span_taken hneed]
  have hsmall := h.small
  simp only [span_append, span_cons] at hsmall
  obtain ⟨htpre, hword, htpost⟩ := (tiles_append _ _ _ _).mp h.tiles
  have hsb := h.sizes b (by simp)
  have hout := @takenMem_of_outside (v.downP + span pre) size.toNat b hpos hneed v.mem
  refine ⟨_, volTake_eq (v := v.pend) hword (by omega) hneed, ?_, rfl, rfl, hout⟩
  constructor
  case state => exact h.state
  case top => rw [hspan]; exact h.top
  case small => rw [hspan]; exact h.small
  case coalesced => exact isChain_taken hb h.coalesced
  case sizes =>
    intro c hc
    rcases List.mem_append.mp hc with hc | hc
    · exact h.sizes c (by simp [hc])
    rcases List.mem_append.mp hc with hc | hc
    · unfold taken at hc
      rcases List.mem_cons.mp hc with rfl | hc
      · exact ⟨hpos, hfour⟩
      · split at hc
        · simp at hc
        · obtain rfl := List.mem_singleton.mp hc
          exact ⟨by simp only; omega, Nat.dvd_sub hsb.2 hfour⟩
    · exact h.sizes c (by simp [hc])
  case rover =>
    refine ⟨pre ++ [⟨size.toNat, true⟩],
      (if b.size = size.toNat then [] else [⟨b.size - size.toNat, false⟩]) ++ post, ?_, ?_⟩
    · simp [taken]
    · simp only [span_append, span_cons, span_nil, Nat.add_zero, ← Nat.add_assoc]
      rfl
  case tiles =>
    have hsizes := fun c (hc : c ∈ pre ++ b :: post) => (h.sizes c hc).1
    rw [tiles_append, tiles_append, span_taken hneed]
    refine ⟨htpre.congr (fun c hc => hsizes c (by simp [hc])) fun x _ hx => ?_,
      takenMem_tiles hpos v.mem,
      htpost.congr (fun c hc => hsizes c (by simp [hc])) fun x hx _ => ?_⟩
    · exact hout x (Or.inl hx)
    · exact hout x (Or.inr hx)

/-- Pending and posting leaves the allocator as it was. -/
theorem pend_post (v : VolMem) : v.pend.post = v := by
  simp [VolMem.pend, VolMem.post]

/-- `vol_r_malloc` on a well-formed arena: either no block fits, and it
answers `NULL` and changes nothing, or it takes one that does. -/
theorem volRMalloc_spec {v : VolMem} {bs : List Block} (h : Arena v bs) (size : BitVec 32) :
    ((∀ b ∈ bs, ¬ Fits (size + 4).toNat b) ∧ volRMalloc size v = (none, v)) ∨
    ∃ pre b post, bs = pre ++ b :: post ∧ Fits (size + 4).toNat b ∧
      volRMalloc size v = volTake v.pend (size + 4) (v.downP + span pre) := by
  obtain ⟨front, back, rfl, hrover⟩ := h.rover
  have hsizes := fun b hb => (h.sizes b hb).1
  have hsmall := h.small
  have htop := h.top
  rw [span_append] at hsmall htop
  obtain ⟨hfront, hback⟩ := (tiles_append _ _ _ _).mp h.tiles
  rw [← hrover] at hback
  have hlimit : v.topP = v.freepP + span back := by omega
  have h1 := volScan_spec (size + 4) hback (fun b hb => hsizes b (by simp [hb])) (by omega)
    (v.topP - v.freepP) (by omega)
  have h2 := volScan_spec (size + 4) hfront (fun b hb => hsizes b (by simp [hb])) (by omega)
    (v.freepP - v.downP) (by omega)
  rw [← hlimit] at h1
  rw [← hrover] at h2
  unfold volRMalloc
  show _ ∨ ∃ pre b post, _ ∧ _ ∧ _
  rcases h1 with ⟨pre, b, post, hsplit, hfit, hscan⟩ | ⟨hno1, hscan1⟩
  · refine Or.inr ⟨front ++ pre, b, post, by rw [hsplit, List.append_assoc], hfit, ?_⟩
    simp only [VolMem.pend, hscan, span_append, ← Nat.add_assoc, ← hrover]
  · rcases h2 with ⟨pre, b, post, hsplit, hfit, hscan⟩ | ⟨hno2, hscan2⟩
    · refine Or.inr ⟨pre, b, post ++ back, by rw [hsplit]; simp, hfit, ?_⟩
      simp only [VolMem.pend, hscan1, hscan]
    · refine Or.inl ⟨fun b hb => ?_, ?_⟩
      · exact (List.mem_append.mp hb).elim (hno2 b) (hno1 b)
      · simp only [VolMem.pend, hscan1, hscan2]
        exact congrArg (Prod.mk none) (pend_post v)

/-- `vol_malloc` on every well-formed arena, for every request of 0 or
more bytes. It answers `NULL` exactly when no free block has room for
the rounded request and the header, and then changes nothing. Otherwise
one block of the arena was free and large enough; the payload lies in
it, its leading part is used now and the rest of it is free, all other
blocks stay as they are, and no word outside of it changes. -/
theorem volMalloc_spec (v : VolMem) (bs : List Block) (h : Arena v bs) (size : BitVec 32)
    (hsize : 0 ≤ size.toInt) :
    ((volMalloc size v).1 = none ↔ ∀ b ∈ bs, b.used = false → b.size < needed size) ∧
    ((volMalloc size v).1 = none → (volMalloc size v).2 = v) ∧
    ∀ p, (volMalloc size v).1 = some p →
      ∃ pre b post, bs = pre ++ b :: post ∧ b.used = false ∧ needed size ≤ b.size ∧
        p = v.downP + span pre + 4 ∧ p + size.toNat ≤ v.downP + span pre + b.size ∧
        Arena (volMalloc size v).2 (pre ++ (taken (needed size) b ++ post)) ∧
        (volMalloc size v).2.downP = v.downP ∧ (volMalloc size v).2.topP = v.topP ∧
        ∀ a, a < v.downP + span pre ∨ v.downP + span pre + b.size ≤ a →
          (volMalloc size v).2.mem a = v.mem a := by
  have hnat : size.toNat < 2 ^ 31 := by
    have := BitVec.toInt_eq_toNat_cond size
    split at this <;> omega
  have hreq := toNat_request hnat
  have hmalloc : volMalloc size v = volRMalloc ((size + 3) &&& ~~~ 3#32) v := by
    simp [volMalloc, h.state]
  have hround : size.toNat + 4 ≤ needed size := by
    unfold needed
    omega
  rw [hmalloc]
  rcases volRMalloc_spec h ((size + 3) &&& ~~~ 3#32) with
    ⟨hno, heq⟩ | ⟨pre, b, post, rfl, hfit, heq⟩
  · rw [heq]
    refine ⟨⟨fun _ b hb hu => ?_, fun _ => rfl⟩, fun _ => rfl, fun p hp => by simp at hp⟩
    have := hno b hb
    rw [hreq] at this
    exact Nat.lt_of_not_le fun hle => this ⟨hu, hle⟩
  · have hpos : 0 < needed size := by omega
    have hfour : 4 ∣ needed size := ⟨(size.toNat + 3) / 4 + 1, by unfold needed; omega⟩
    obtain ⟨v', hv', harena, hdown, htop, hout⟩ :=
      volTake_arena h hfit (hreq ▸ hpos) (hreq ▸ hfour)
    rw [hreq] at hfit harena
    rw [heq, hv']
    refine ⟨⟨fun hp => by simp at hp, fun hall => ?_⟩, fun hp => by simp at hp, fun p hp => ?_⟩
    · exact absurd hfit.2 (Nat.not_le.mpr (hall b (by simp) hfit.1))
    · obtain rfl := Option.some.inj hp
      have hle := hfit.2
      exact ⟨pre, b, post, rfl, hfit.1, hfit.2, rfl, by omega, harena, hdown, htop, hout⟩

/-- An arena of 32 bytes: a used block of 8, then a free one of 24, at
which the rover stands. -/
def volMemTwoBlocks : VolMem where
  mem := fun a => if a = 0 then blockWord 8 true else blockWord 24 false
  topP := 32
  downP := 0
  freepP := 8
  memState := 1
  mutex := 0

/-- `volMalloc_spec` for a request of 6 bytes: no block stays too small
for it, so the answer is not `NULL`. -/
theorem volMalloc_spec_twoBlocks :
    (volMalloc 6 volMemTwoBlocks).1 ≠ none := by
  have harena : Arena volMemTwoBlocks [⟨8, true⟩, ⟨24, false⟩] := by
    constructor
    case state => decide
    case tiles => exact ⟨rfl, rfl, trivial⟩
    case top => rfl
    case sizes => simp
    case small => decide
    case coalesced => simp
    case rover => exact ⟨[⟨8, true⟩], [⟨24, false⟩], rfl, rfl⟩
  intro hnone
  have := (volMalloc_spec volMemTwoBlocks _ harena 6 (by decide)).1.mp hnone ⟨24, false⟩ (by simp)
    rfl
  exact absurd this (by decide)

end ACoral
