import ACoral.Proofs.VolMem

/-!
# `ACoral.Proofs.VolFree`: the release of a block of a well-formed arena

`vol_free` joins the released block with its free neighbours. Whether the
next block is free it reads from the word behind the block, also when the
block ends at the top of the arena. That word lies outside.

- `volWalk_spec`: the walk from the bottom finds the block before.
- `Tiles.join`: blocks whose headers give way to a single one.
- `volFree_eq`: what the release of a block that is not the last one writes.
- `volFree_iff`: the release is right, whatever lies outside of the arena,
  exactly when the block is not the last one.
-/

set_option autoImplicit false

namespace ACoral

/-! ### Header words -/

/-- A word is that of a free block unless its tag is set. -/
theorem blockIsFree_eq (w : BitVec 32) : blockIsFree w = !blockIsUsed w := by
  have hbit : ∀ i < 32, USETAG_MASK.getLsbD i = decide (i = 0) := by decide
  have hiff : w &&& USETAG_MASK = 0 ↔ w.getLsbD 0 = false := by
    constructor
    · intro hw
      have h0 := congrArg (fun v => v.getLsbD 0) hw
      simpa [USETAG_MASK] using h0
    · intro hw
      refine BitVec.eq_of_getLsbD_eq fun i hi => ?_
      rw [BitVec.getLsbD_and, hbit i hi, show BitVec.getLsbD 0 i = false from BitVec.getLsbD_zero]
      by_cases h0 : i = 0
      · rw [h0, hw, Bool.false_and]
      · rw [decide_eq_false h0, Bool.and_false]
  rw [blockIsUsed_eq]
  unfold blockIsFree
  rw [Bool.eq_iff_iff, decide_eq_true_iff, hiff, Bool.not_eq_true']

/-- A header tells whether its block is free. -/
theorem blockIsFree_blockWord (size : Nat) (used : Bool) :
    blockIsFree (blockWord size used) = !used := by
  rw [blockIsFree_eq, blockIsUsed_blockWord]

/-- A header carries the magic number. -/
theorem blockCheck_blockWord (size : Nat) (used : Bool) :
    blockCheck (blockWord size used) = true := by
  have hmask : ∀ i < 32, MAGIC_MASK.getLsbD i = (decide (i < 8) && decide (i ≠ 0)) := by decide
  have hmagic : ∀ i < 32, MAGIC.getLsbD i = true → i < 8 ∧ i ≠ 0 := by decide
  have hone : ∀ i < 32, (0x1#32).getLsbD i = decide (i = 0) := by decide
  unfold blockCheck
  refine decide_eq_true (BitVec.eq_of_getLsbD_eq fun i hi => ?_)
  have hm := hmagic i hi
  rw [BitVec.getLsbD_and, hmask i hi]
  by_cases hlow : i < 8 ∧ i ≠ 0
  · cases used <;>
      simp [blockWord, blockUsedWord, blockFreeWord, SIZE_SHIFT, hlow.1, hlow.2, hone i hi]
  · have hoff : MAGIC.getLsbD i = false := by
      rw [← Bool.not_eq_true]
      exact fun h => hlow (hm h)
    rw [hoff]
    by_cases h8 : i < 8
    · have h0 : i = 0 := by omega
      simp [h0]
    · simp [h8]

/-! ### Joining blocks -/

/-- The sizes are multiples of 4, so their sum is. -/
theorem four_dvd_span {bs : List Block} (h : ∀ b ∈ bs, 4 ∣ b.size) : 4 ∣ span bs := by
  induction bs with
  | nil => simp
  | cons b bs ih =>
      rw [span_cons]
      exact Nat.dvd_add (h b (by simp)) (ih fun c hc => h c (by simp [hc]))

/-- Blocks that lie one after the other become a single free one when its
header is written over the first of theirs. -/
theorem Tiles.join {mem mem' : Nat → BitVec 32} {a : Nat} {front mid back : List Block}
    (h : Tiles mem a (front ++ (mid ++ back)))
    (hpos : ∀ b ∈ front ++ (mid ++ back), 0 < b.size)
    (hout : ∀ x, x < a + span front ∨ a + span front + span mid ≤ x → mem' x = mem x)
    (hword : mem' (a + span front) = blockWord (span mid) false) :
    Tiles mem' a (front ++ ⟨span mid, false⟩ :: back) := by
  obtain ⟨hfront, hrest⟩ := (tiles_append _ _ _ _).mp h
  obtain ⟨-, hback⟩ := (tiles_append _ _ _ _).mp hrest
  refine (tiles_append _ _ _ _).mpr ⟨?_, hword, ?_⟩
  · exact hfront.congr (fun b hb => hpos b (by simp [hb])) fun x _ hx => hout x (Or.inl hx)
  · exact hback.congr (fun b hb => hpos b (by simp [hb])) fun x hx _ => hout x (Or.inr hx)

/-- A round of the walk over a block. -/
theorem volWalk_round {mem : Nat → BitVec 32} {a p : Nat} {b : Block} (hpos : 0 < b.size)
    (hlt : b.size < 2 ^ 24) (hword : mem a = blockWord b.size b.used) (hp : a < p)
    (rounds prevTp : Nat) (size : BitVec 32) :
    volWalk mem p (rounds + 1) a prevTp size =
      volWalk mem p rounds (a + b.size) a (BitVec.ofNat 32 b.size) := by
  have hnat : (BitVec.ofNat 32 b.size).toNat = b.size := by
    rw [BitVec.toNat_ofNat]
    exact Nat.mod_eq_of_lt (by omega)
  have hne : BitVec.ofNat 32 b.size ≠ 0 := fun h0 => by
    rw [h0] at hnat
    have : (0 : BitVec 32).toNat = 0 := by decide
    omega
  rw [volWalk, if_pos hp]
  simp only [hword, blockGetSize_blockWord hlt, if_neg hne, hnat]

/-- The walk over whole blocks stops at the last one. The induction is on
the blocks before it. -/
theorem volWalk_spec {mem : Nat → BitVec 32} {a : Nat} {pre : List Block} {l : Block}
    (htiles : Tiles mem a (pre ++ [l])) (hsizes : ∀ b ∈ pre ++ [l], 0 < b.size)
    (hsmall : span (pre ++ [l]) < 2 ^ 24) (rounds : Nat) (hrounds : span (pre ++ [l]) ≤ rounds)
    (prevTp : Nat) (size : BitVec 32) :
    volWalk mem (a + span (pre ++ [l])) rounds a prevTp size =
      .before (a + span pre) (BitVec.ofNat 32 l.size) := by
  induction pre generalizing a prevTp size rounds with
  | nil =>
      have hl := hsizes l (by simp)
      simp only [List.nil_append, span_cons, span_nil, Nat.add_zero] at hsmall hrounds ⊢
      obtain ⟨n, rfl⟩ : ∃ n, rounds = n + 1 := ⟨rounds - 1, by omega⟩
      rw [volWalk_round hl hsmall htiles.1 (by omega)]
      cases n with
      | zero => rfl
      | succ n => rw [volWalk, if_neg (by omega)]
  | cons b bs ih =>
      have hb := hsizes b (by simp)
      simp only [List.cons_append, span_cons, span_append, span_nil, Nat.add_zero]
        at hsmall hrounds ih ⊢
      obtain ⟨n, rfl⟩ : ∃ n, rounds = n + 1 := ⟨rounds - 1, by omega⟩
      rw [volWalk_round hb (by omega) htiles.1 (by omega), ← Nat.add_assoc a]
      rw [ih htiles.2 (fun c hc => hsizes c (List.mem_cons_of_mem _ hc)) (by omega) n (by omega),
        Nat.add_assoc]

/-! ### The neighbours -/

/-- `left` is the free neighbour at the end of `pre`, or empty if there is
none, and `front` is what stands before it. -/
inductive FreeBefore : (pre front left : List Block) → Prop where
  | none : FreeBefore [] [] []
  | used {front : List Block} {l : Block} (h : l.used = true) :
      FreeBefore (front ++ [l]) (front ++ [l]) []
  | free {front : List Block} {l : Block} (h : l.used = false) :
      FreeBefore (front ++ [l]) front [l]

/-- `right` is the free neighbour at the start of `post`, or empty if there
is none, and `back` is what stands behind it. -/
inductive FreeBehind : (post right back : List Block) → Prop where
  | none : FreeBehind [] [] []
  | used {back : List Block} {l : Block} (h : l.used = true) : FreeBehind (l :: back) [] (l :: back)
  | free {back : List Block} {l : Block} (h : l.used = false) : FreeBehind (l :: back) [l] back

theorem exists_freeBefore (pre : List Block) : ∃ front left, FreeBefore pre front left := by
  rcases List.eq_nil_or_concat pre with rfl | ⟨front, l, rfl⟩
  · exact ⟨[], [], .none⟩
  · rw [List.concat_eq_append]
    cases hl : l.used with
    | true  => exact ⟨_, _, .used hl⟩
    | false => exact ⟨_, _, .free hl⟩

theorem exists_freeBehind (post : List Block) : ∃ right back, FreeBehind post right back := by
  cases post with
  | nil => exact ⟨[], [], .none⟩
  | cons l back =>
      cases hl : l.used with
      | true  => exact ⟨_, _, .used hl⟩
      | false => exact ⟨_, _, .free hl⟩

theorem FreeBefore.eq {pre front left : List Block} (h : FreeBefore pre front left) :
    pre = front ++ left := by
  cases h <;> simp

theorem FreeBehind.eq {post right back : List Block} (h : FreeBehind post right back) :
    post = right ++ back := by
  cases h <;> simp

/-! ### What is written -/

/-- The memory after the free block of `n` bytes at `p` is joined with the
free block `left` before it, if there is one. -/
def joinedPrev (mem : Nat → BitVec 32) (p n : Nat) (left : List Block) : Nat → BitVec 32 :=
  if left = [] then mem
  else Function.update (Function.update mem p 0) (p - span left)
    (blockFreeWord (BitVec.ofNat 32 (n + span left)))

/-- The memory after the block of `n` bytes at `p` is made free, joined with
the free block `right` behind it, if there is one. -/
def joinedNext (mem : Nat → BitVec 32) (p n : Nat) (right : List Block) : Nat → BitVec 32 :=
  Function.update (if right = [] then mem else Function.update mem (p + n) 0) p
    (blockFreeWord (BitVec.ofNat 32 (n + span right)))

/-- The end of `vol_free`, when whole blocks lie before `p`. -/
theorem volMergePrev_eq {v : VolMem} {pre front left : List Block}
    (hleft : FreeBefore pre front left) (htiles : Tiles v.mem v.downP pre) (hsizes : ∀ b ∈ pre, 0 < b.size) {n : Nat}
    (hsmall : span pre < 2 ^ 24) (hrover : v.freepP = v.downP + span pre) (size : BitVec 32) :
    volMergePrev v (v.downP + span pre) (BitVec.ofNat 32 n) size =
      { v with
        mem := joinedPrev v.mem (v.downP + span pre) n left
        freepP := v.downP + span front
        mutex := v.mutex - 1 } := by
  cases hleft with
  | none =>
      rw [span_nil, Nat.add_zero] at hrover ⊢
      simp [volMergePrev, joinedPrev, VolMem.post, ← hrover]
  | @used front l hl =>
      have hpos := hsizes l (by simp)
      have hword := ((tiles_append _ _ _ _).mp htiles).2.1
      have hne : v.downP + span (front ++ [l]) ≠ v.downP := by simp; omega
      have hwalk := volWalk_spec htiles hsizes hsmall
        (v.downP + span (front ++ [l]) - v.downP) (by omega)
        (v.downP + span (front ++ [l])) size
      rw [volMergePrev, if_neg hne, hwalk]
      simp only [hword, blockIsFree_blockWord, hl, joinedPrev, VolMem.post, ← hrover]
      rfl
  | @free front l hl =>
      have hpos := hsizes l (by simp)
      have hword := ((tiles_append _ _ _ _).mp htiles).2.1
      have hne : v.downP + span (front ++ [l]) ≠ v.downP := by simp; omega
      have hwalk := volWalk_spec htiles hsizes hsmall
        (v.downP + span (front ++ [l]) - v.downP) (by omega)
        (v.downP + span (front ++ [l])) size
      have hstart : v.downP + span (front ++ [l]) - span [l] = v.downP + span front := by
        simp only [span_append]
        omega
      rw [volMergePrev, if_neg hne, hwalk]
      simp only [hword, blockIsFree_blockWord, hl, joinedPrev, hstart, VolMem.write, VolMem.post]
      simp [BitVec.ofNat_add]

/-- The memory after the release of the block of `n` bytes at `p`. -/
def freedMem (mem : Nat → BitVec 32) (p n : Nat) (left right : List Block) : Nat → BitVec 32 :=
  joinedPrev (joinedNext mem p n right) p (n + span right) left

/-- The header of the free block. -/
theorem freedMem_word (mem : Nat → BitVec 32) (p n : Nat) (left right : List Block) :
    freedMem mem p n left right (p - span left) =
      blockWord (span left + n + span right) false := by
  have hsum : span left + n + span right = n + span right + span left := by omega
  rw [hsum]
  unfold freedMem joinedPrev
  split
  case isTrue h =>
    rw [h, span_nil, Nat.sub_zero, Nat.add_zero]
    exact Function.update_self _ _ _
  case isFalse h => exact Function.update_self _ _ _

/-- Outside of the joined blocks nothing is written. -/
theorem freedMem_of_outside {mem : Nat → BitVec 32} {p n : Nat} {left right : List Block}
    (hn : 0 < n) (hright : right ≠ [] → 0 < span right) {x : Nat}
    (hx : x < p - span left ∨ p + n + span right ≤ x) : freedMem mem p n left right x = mem x := by
  have hnext : joinedNext mem p n right x = mem x := by
    unfold joinedNext
    rw [Function.update_of_ne (by omega)]
    split
    case isTrue h => rfl
    case isFalse h =>
      have := hright h
      exact Function.update_of_ne (by omega) _ _
  unfold freedMem joinedPrev
  split
  case isTrue h => exact hnext
  case isFalse h => rw [Function.update_of_ne (by omega), Function.update_of_ne (by omega), hnext]

/-- What a release writes does not depend on the memory. -/
theorem freedMem_congr {mem mem' : Nat → BitVec 32} {x : Nat} (h : mem' x = mem x) (p n : Nat)
    (left right : List Block) : freedMem mem' p n left right x = freedMem mem p n left right x := by
  unfold freedMem joinedPrev joinedNext Function.update
  by_cases hl : left = [] <;> by_cases hr : right = [] <;> simp [hl, hr, h]

@[simp] theorem VolMem.pend_mem (v : VolMem) : v.pend.mem = v.mem := rfl

/-- `vol_free` of a live block: the address passes the checks, and the word
behind the block decides. -/
theorem volFree_live {v : VolMem} {pre post : List Block} {b : Block}
    (h : Arena v (pre ++ b :: post)) (hdown : v.downP ≠ 0) (hb : b.used = true) :
    volFree (v.downP + span pre + 4) v =
      let p := v.downP + span pre
      let word := v.mem (p + b.size)
      let bSize := BitVec.ofNat 32 b.size
      if blockIsFree word then
        if blockGetSize word = 0 then v
        else
          volMergePrev { (v.pend.write (p + b.size) 0).write p
            (blockFreeWord (bSize + blockGetSize word)) with freepP := p } p
            (bSize + blockGetSize word) (blockGetSize word)
      else
        volMergePrev { v.pend.write p (blockFreeWord bSize) with freepP := p } p bSize
          (blockGetSize word) := by
  have hsmall := h.small
  have htop := h.top
  simp only [span_append, span_cons] at hsmall htop
  have hword := ((tiles_append _ _ _ _).mp h.tiles).2.1
  have hsb := (h.sizes b (by simp)).1
  have hchecks : (decide (v.downP + span pre = 0) || decide (v.downP + span pre < v.pend.downP) ||
      decide (v.pend.topP ≤ v.downP + span pre) ||
      !blockCheck (v.pend.mem (v.downP + span pre))) = false := by
    show (_ || decide (_ < v.downP) || decide (v.topP ≤ _) || !blockCheck (v.mem _)) = _
    rw [hword, blockCheck_blockWord, decide_eq_false (by omega), decide_eq_false (by omega),
      decide_eq_false (by omega)]
    rfl
  have hused : blockIsFree (v.mem (v.downP + span pre)) = false := by
    rw [hword, blockIsFree_blockWord, hb]
    rfl
  have hget : blockGetSize (v.mem (v.downP + span pre)) = BitVec.ofNat 32 b.size := by
    rw [hword]
    exact blockGetSize_blockWord (by omega) b.used
  have hnat : (BitVec.ofNat 32 b.size).toNat = b.size := by
    rw [BitVec.toNat_ofNat]
    exact Nat.mod_eq_of_lt (by omega)
  unfold volFree
  rw [if_neg h.state, Nat.add_sub_cancel]
  simp only [hchecks]
  simp only [VolMem.pend_mem, pend_post, hget, hnat, Bool.false_eq_true, if_false, hused]

/-- `vol_free` of a block that is not the last one of its arena. -/
theorem volFree_eq {v : VolMem} {pre front left : List Block} {b c : Block}
    {post right back : List Block} (h : Arena v (pre ++ b :: c :: post)) (hdown : v.downP ≠ 0) (hb : b.used = true)
    (hleft : FreeBefore pre front left) (hright : FreeBehind (c :: post) right back) :
    volFree (v.downP + span pre + 4) v =
      { v with
        mem := freedMem v.mem (v.downP + span pre) b.size left right
        freepP := v.downP + span front } := by
  have hsmall := h.small
  have htop := h.top
  simp only [span_append, span_cons] at hsmall htop
  obtain ⟨htpre, -, hnext, -⟩ := (tiles_append _ _ _ _).mp h.tiles
  have hsb := (h.sizes b (by simp)).1
  have hsc := (h.sizes c (by simp)).1
  have hspre : ∀ d ∈ pre, 0 < d.size := fun d hd => (h.sizes d (by simp [hd])).1
  have hgetNext : blockGetSize (v.mem (v.downP + span pre + b.size)) = BitVec.ofNat 32 c.size := by
    rw [hnext]
    exact blockGetSize_blockWord (by omega) c.used
  have hne : BitVec.ofNat 32 c.size ≠ 0 := fun h0 => by
    have := congrArg BitVec.toNat h0
    rw [BitVec.toNat_ofNat, Nat.mod_eq_of_lt (by omega)] at this
    exact absurd this (by simp; omega)
  have hfreeNext : blockIsFree (v.mem (v.downP + span pre + b.size)) = !c.used := by
    rw [hnext, blockIsFree_blockWord]
  -- the block before it is still where it was
  have htiles : Tiles (joinedNext v.mem (v.downP + span pre) b.size right) v.downP pre := by
    refine htpre.congr hspre fun x _ hx => ?_
    unfold joinedNext
    rw [Function.update_of_ne (by omega)]
    split
    · rfl
    · exact Function.update_of_ne (by omega) _ _
  have hmerge := fun size => volMergePrev_eq
    (v := { v.pend with
      mem := joinedNext v.mem (v.downP + span pre) b.size right, freepP := v.downP + span pre })
    hleft htiles hspre (n := b.size + span right) (by omega) rfl size
  rw [volFree_live h hdown hb]
  unfold freedMem
  simp only [VolMem.pend, hgetNext, hfreeNext, if_neg hne]
  cases hright with
  | used hc =>
      have hsize := hmerge (BitVec.ofNat 32 c.size)
      simp only [VolMem.pend, joinedNext, span_nil, Nat.add_zero, if_true] at hsize
      simpa [hc, VolMem.write, joinedNext] using hsize
  | free hc =>
      have hsize := hmerge (BitVec.ofNat 32 c.size)
      simp only [VolMem.pend, joinedNext, span_cons, span_nil, Nat.add_zero] at hsize
      simpa [hc, VolMem.write, joinedNext, BitVec.ofNat_add] using hsize

/-! ### The release -/

/-- `v'` is what a right release of the block `b`, which stands between the
blocks `pre` and the blocks `post` of the arena of `v`, leaves behind. The
block is free and joined with its free neighbours, and with nothing else.
The arena is the same and well-formed, and no word outside of the joined
blocks has changed. -/
def Released (v v' : VolMem) (pre : List Block) (b : Block) (post : List Block) : Prop :=
  ∃ front left right back, FreeBefore pre front left ∧ FreeBehind post right back ∧
    Arena v' (front ++ ⟨span left + b.size + span right, false⟩ :: back) ∧
    v'.downP = v.downP ∧ v'.topP = v.topP ∧
    ∀ a, a < v.downP + span front ∨
      v.downP + span front + (span left + b.size + span right) ≤ a → v'.mem a = v.mem a

/-- The same arena: only memory outside of it may be different. -/
structure SameArena (v w : VolMem) : Prop where
  topP : w.topP = v.topP
  downP : w.downP = v.downP
  freepP : w.freepP = v.freepP
  memState : w.memState = v.memState
  mutex : w.mutex = v.mutex
  mem : ∀ a, v.downP ≤ a → a < v.topP → w.mem a = v.mem a

theorem Arena.congr {v w : VolMem} {bs : List Block} (h : Arena v bs) (hsame : SameArena v w) :
    Arena w bs := by
  have htop := h.top
  constructor
  case state => rw [hsame.memState]; exact h.state
  case top => rw [hsame.topP, hsame.downP]; exact h.top
  case sizes => exact h.sizes
  case small => exact h.small
  case coalesced => exact h.coalesced
  case rover => rw [hsame.freepP, hsame.downP]; exact h.rover
  case tiles =>
    rw [hsame.downP]
    exact h.tiles.congr (fun b hb => (h.sizes b hb).1) fun x hx hx' => hsame.mem x hx (by omega)

/-- The block before the joined ones is not free. -/
theorem FreeBefore.isChain {pre front left : List Block} {b : Block} {post right back : List Block}
    (hleft : FreeBefore pre front left) (hright : FreeBehind post right back) (joined : Block)
    (h : (pre ++ b :: post).IsChain fun b c => b.used = true ∨ c.used = true) :
    (front ++ joined :: back).IsChain fun b c => b.used = true ∨ c.used = true := by
  obtain ⟨hpre, hpost, -⟩ := List.isChain_append.mp h
  have hpost := (List.isChain_cons.mp hpost).2
  refine List.isChain_append.mpr ⟨?_, List.isChain_cons.mpr ⟨fun c hc => Or.inr ?_, ?_⟩,
    fun c hc d _ => Or.inl ?_⟩
  · rw [hleft.eq] at hpre
    exact (List.isChain_append.mp hpre).1
  · cases hright with
    | none => simp at hc
    | used hl =>
        obtain rfl := Option.some.inj hc
        exact hl
    | free hl => exact ((List.isChain_cons.mp hpost).1 c hc).resolve_left (by simp [hl])
  · rw [hright.eq] at hpost
    exact (List.isChain_append.mp hpost).2.1
  · cases hleft with
    | none => simp at hc
    | used hl =>
        rw [List.getLast?_append_cons, List.getLast?_singleton] at hc
        obtain rfl := Option.some.inj hc
        exact hl
    | free hl =>
        have hlast := (List.isChain_append.mp hpre).2.2 c hc _ rfl
        exact hlast.resolve_right (by simp [hl])

/-- The release of a block that is not the last one. -/
theorem volFree_released {v : VolMem} {pre : List Block} {b c : Block} {post : List Block}
    (h : Arena v (pre ++ b :: c :: post)) (hdown : v.downP ≠ 0) (hb : b.used = true) :
    Released v (volFree (v.downP + span pre + 4) v) pre b (c :: post) := by
  obtain ⟨front, left, hleft⟩ := exists_freeBefore pre
  obtain ⟨right, back, hright⟩ := exists_freeBehind (c :: post)
  have hspan : v.downP + span pre - span left = v.downP + span front := by
    rw [hleft.eq, span_append]
    omega
  have hsb := h.sizes b (by simp)
  have hrightPos : right ≠ [] → 0 < span right := fun hne => by
    cases hright with
    | used => exact absurd rfl hne
    | free => simpa using (h.sizes c (by simp)).1
  have hout : ∀ x, x < v.downP + span front ∨
      v.downP + span front + (span left + b.size + span right) ≤ x →
      freedMem v.mem (v.downP + span pre) b.size left right x = v.mem x := fun x hx =>
    freedMem_of_outside hsb.1 hrightPos (by rw [hleft.eq, span_append] at *; omega)
  have hblocks : pre ++ b :: c :: post = front ++ ((left ++ b :: right) ++ back) := by
    rw [hright.eq, hleft.eq]
    simp
  have hmid : span (left ++ b :: right) = span left + b.size + span right := by
    simp only [span_append, span_cons]
    omega
  rw [volFree_eq h hdown hb hleft hright]
  refine ⟨front, left, right, back, hleft, hright, ?_, rfl, rfl, hout⟩
  have hspans : span (front ++ ⟨span left + b.size + span right, false⟩ :: back) =
      span (pre ++ b :: c :: post) := by
    rw [hblocks, ← hmid]
    simp only [span_append, span_cons]
  constructor
  case state => exact h.state
  case top => rw [hspans]; exact h.top
  case small => rw [hspans]; exact h.small
  case coalesced => exact hleft.isChain hright _ h.coalesced
  case rover => exact ⟨front, _, rfl, rfl⟩
  case sizes =>
    intro d hd
    rw [hblocks] at h
    rcases List.mem_append.mp hd with hd | hd
    · exact h.sizes d (by simp [hd])
    rcases List.mem_cons.mp hd with rfl | hd
    · refine ⟨by simp only; omega, ?_⟩
      rw [← hmid]
      exact four_dvd_span fun e he => (h.sizes e (by simp only [List.mem_append, he]; simp)).2
    · exact h.sizes d (by simp [hd])
  case tiles =>
    rw [hblocks] at h
    rw [← hmid]
    refine h.tiles.join (fun d hd => (h.sizes d hd).1) ?_ ?_
    · rw [hmid]
      intro x hx
      exact hout x (by omega)
    · rw [hmid, ← hspan]
      exact freedMem_word _ _ _ _ _

/-- The release of the last block, with a word of 0 at the top: the size of
the block behind is taken for 0, and nothing is freed. -/
theorem volFree_last {v : VolMem} {pre : List Block} {b : Block} (h : Arena v (pre ++ [b]))
    (hdown : v.downP ≠ 0) (hb : b.used = true) (hword : v.mem v.topP = 0) :
    volFree (v.downP + span pre + 4) v = v := by
  have htop := h.top
  simp only [span_append, span_cons, span_nil, Nat.add_zero] at htop
  have hnext : v.downP + span pre + b.size = v.topP := by omega
  have hzero : blockIsFree (0 : BitVec 32) = true ∧ blockGetSize 0 = 0 := by decide
  rw [volFree_live h hdown hb]
  simp only [hnext, hword, hzero.1, hzero.2, if_true]

/-- A used block is not released by changing nothing. -/
theorem not_released_self {v : VolMem} {pre : List Block} {b : Block} (h : Arena v (pre ++ [b]))
    (hb : b.used = true) : ¬ Released v v pre b [] := by
  rintro ⟨front, left, right, back, hleft, hright, harena, -⟩
  have hsmall := harena.small
  have hsb := (h.sizes b (by simp)).1
  have hnew := ((tiles_append _ _ _ _).mp harena.tiles).2.1
  have hold := ((tiles_append _ _ _ _).mp h.tiles).2.1
  obtain ⟨rfl, rfl⟩ : right = [] ∧ back = [] := by
    have := hright.eq.symm
    exact List.append_eq_nil_iff.mp this
  -- with no free block before it, its own header would be that of a free block
  have hown : left = [] → False := fun hnil => by
    have heq := hleft.eq
    rw [hnil, List.append_nil] at heq
    rw [heq, hnew] at hold
    have htag := congrArg blockIsUsed hold
    rw [blockIsUsed_blockWord, blockIsUsed_blockWord, hb] at htag
    exact Bool.noConfusion htag
  cases hleft with
  | none => exact hown rfl
  | used hl => exact hown rfl
  | @free l hl =>
      -- the header of the block before it would have grown
      have hword := ((tiles_append _ _ _ _).mp ((tiles_append _ _ _ _).mp h.tiles).1).2.1
      have hsize := congrArg blockGetSize (hword.symm.trans hnew)
      simp only [span_append, span_cons, span_nil] at hsmall hsize
      rw [blockGetSize_blockWord (by omega), blockGetSize_blockWord (by omega)] at hsize
      have := congrArg BitVec.toNat hsize
      rw [BitVec.toNat_ofNat, BitVec.toNat_ofNat, Nat.mod_eq_of_lt (by omega),
        Nat.mod_eq_of_lt (by omega)] at this
      omega

/-- `vol_free` of every live block `b` of every well-formed arena. Whatever
lies outside of the arena, exactly this block becomes free and is joined
with its free neighbours, and the outcome in the arena is the same: that is
so exactly when the block is not the last one. -/
theorem volFree_iff (v : VolMem) (pre : List Block) (b : Block) (post : List Block)
    (h : Arena v (pre ++ b :: post)) (hdown : v.downP ≠ 0) (hb : b.used = true) :
    (∀ w, SameArena v w →
      Released w (volFree (v.downP + span pre + 4) w) pre b post ∧
        SameArena (volFree (v.downP + span pre + 4) v) (volFree (v.downP + span pre + 4) w)) ↔
    post ≠ [] := by
  constructor
  · rintro hall rfl
    -- the word at the top may be 0
    have hsame : SameArena v { v with mem := Function.update v.mem v.topP 0 } :=
      ⟨rfl, rfl, rfl, rfl, rfl, fun a _ ha => Function.update_of_ne (by omega) _ _⟩
    have harena := h.congr hsame
    have hrel := (hall _ hsame).1
    rw [show v.downP + span pre + 4 =
      ({ v with mem := Function.update v.mem v.topP 0 } : VolMem).downP + span pre + 4 from rfl,
      volFree_last harena hdown hb (Function.update_self _ _ _)] at hrel
    exact not_released_self harena hb hrel
  · intro hpost w hsame
    obtain ⟨c, post, rfl⟩ := List.exists_cons_of_ne_nil hpost
    have harena := h.congr hsame
    have hdown' : w.downP ≠ 0 := by rw [hsame.downP]; exact hdown
    have hp : v.downP + span pre + 4 = w.downP + span pre + 4 := by rw [hsame.downP]
    refine ⟨hp ▸ volFree_released harena hdown' hb, ?_⟩
    obtain ⟨front, left, hleft⟩ := exists_freeBefore pre
    obtain ⟨right, back, hright⟩ := exists_freeBehind (c :: post)
    rw [volFree_eq h hdown hb hleft hright, hp, volFree_eq harena hdown' hb hleft hright]
    refine ⟨hsame.topP, hsame.downP, ?_, hsame.memState, hsame.mutex, fun a ha ha' => ?_⟩
    · show w.downP + span front = v.downP + span front
      rw [hsame.downP]
    · show freedMem w.mem (w.downP + span pre) b.size left right a = _
      rw [hsame.downP]
      exact freedMem_congr (hsame.mem a ha ha') _ _ _ _

/-- An arena of 32 bytes at 4: a used block of 8 bytes, then a free one. -/
def volMemFirstUsed : VolMem :=
  (volMalloc 4 (volMemInit ⟨fun _ => 0, 0, 0, 0, 0, 0⟩ (some 4) 32)).2

theorem volMemFirstUsed_arena : Arena volMemFirstUsed [⟨8, true⟩, ⟨24, false⟩] := by
  constructor
  case state => decide
  case tiles => exact ⟨by decide, by decide, trivial⟩
  case top => rfl
  case sizes => simp
  case small => decide
  case coalesced => simp
  case rover => exact ⟨[⟨8, true⟩], [⟨24, false⟩], rfl, rfl⟩

/-- The first block is released. -/
theorem volFree_iff_firstUsed :
    Released volMemFirstUsed (volFree 8 volMemFirstUsed) [] ⟨8, true⟩ [⟨24, false⟩] :=
  ((volFree_iff volMemFirstUsed [] ⟨8, true⟩ [⟨24, false⟩] volMemFirstUsed_arena (by decide)
    rfl).mpr (by simp) volMemFirstUsed ⟨rfl, rfl, rfl, rfl, rfl, fun _ _ _ => rfl⟩).1

/-- A request has taken a whole arena of 32 bytes at 4, behind which lies
`word`. -/
def volMemFull (word : BitVec 32) : VolMem :=
  (volMalloc 28 (volMemInit ⟨fun a => if a = 36 then word else 0, 0, 0, 0, 0, 0⟩ (some 4) 32)).2

/-- The release of the last block reads the word behind the arena. If that
is 0, nothing is freed; if it is the header of a free block of 8 bytes, the
block in the arena of 32 bytes has 40 bytes afterwards. -/
theorem volFree_outside :
    Arena (volMemFull 0) [⟨32, true⟩] ∧ SameArena (volMemFull 0) (volMemFull (blockFreeWord 8)) ∧
      ¬ Released (volMemFull 0) (volFree 8 (volMemFull 0)) [] ⟨32, true⟩ [] ∧
      (volFree 8 (volMemFull 0)).mem 4 = blockUsedWord 32 ∧
      (volFree 8 (volMemFull (blockFreeWord 8))).mem 4 = blockFreeWord 40 := by
  have harena : Arena (volMemFull 0) [⟨32, true⟩] := by
    constructor
    case state => decide
    case tiles => exact ⟨by decide, trivial⟩
    case top => rfl
    case sizes => simp
    case small => decide
    case coalesced => simp
    case rover => exact ⟨[⟨32, true⟩], [], rfl, rfl⟩
  refine ⟨harena, ⟨rfl, rfl, rfl, rfl, rfl, fun a _ ha => ?_⟩, ?_, by decide, by decide⟩
  · have h36 : a ≠ 36 := Nat.ne_of_lt ha
    show Function.update _ 4 _ a = Function.update _ 4 _ a
    by_cases h4 : a = 4
    · rw [h4]
      rfl
    · rw [Function.update_of_ne h4, Function.update_of_ne h4]
      show Function.update _ 4 _ a = Function.update _ 4 _ a
      rw [Function.update_of_ne h4, Function.update_of_ne h4]
      simp [h36]
  · have harena' : Arena (volMemFull 0) ([] ++ [⟨32, true⟩]) := harena
    have hkeep := volFree_last harena' (by decide) rfl (by decide)
    rw [show volFree 8 (volMemFull 0) = volMemFull 0 from hkeep]
    exact not_released_self harena' rfl

end ACoral
