import ACoral.Lib.Chain
import ACoral.Proofs.Buddy.Run

/-!
# `ACoral.Proofs.Buddy.Lists`: the linked words of the levels

The list of a level is right when it has the words with a set bit, in
order, and no others. `buddy_init` may link one word more on the top level,
which no block has its bit in; such words are called spare.

- `takeBit_listed`, `splitBlock_listed`: the steps of a search keep the
  lists right.
- `buddyMalloc_listed`: so does `buddy_malloc` when its search is sound.
- `Started.listed`: the lists of a new heap are right.
-/

set_option autoImplicit false

namespace ACoral

open Lib

variable {b b' : BlockCtr} {spare spare' : Int → Prop} {N k l : Nat} {ws : List Int}

/-! ### Right lists -/

/-- The words that belong to the list of level `l`: those with a set bit,
and on the top level `k` the spare ones. -/
def Linked (b : BlockCtr) (spare : Int → Prop) (k l : Nat) (w : Int) : Prop :=
  0 ≤ w ∧ w < b.numL l ∧ (b.bitmap l w ≠ 0 ∨ l = k ∧ spare w)

/-- `ws` is the list of level `l`, in order, and has the words that belong
to it. -/
structure LevelList (b : BlockCtr) (spare : Int → Prop) (k l : Nat) (ws : List Int) : Prop where
  chain : Chain (b.freeList l) (-1) (b.freeCur l) ws
  sorted : ws.Pairwise (· < ·)
  mem : ∀ w, w ∈ ws ↔ Linked b spare k l w

/-- The lists of all levels are right. -/
def Listed (b : BlockCtr) (spare : Int → Prop) (k : Nat) : Prop :=
  ∀ l ≤ k, ∃ ws, LevelList b spare k l ws

namespace LevelList

/-- A list that does not change stays right. -/
theorem keep (h : LevelList b spare k l ws) (hlist : b'.freeList l = b.freeList l)
    (hcur : b'.freeCur l = b.freeCur l)
    (hlinked : ∀ v, Linked b' spare' k l v ↔ Linked b spare k l v) :
    LevelList b' spare' k l ws where
  chain := by rw [hlist, hcur]; exact h.chain
  sorted := h.sorted
  mem := fun v => (h.mem v).trans (hlinked v).symm

/-- The first word leaves the list. -/
theorem pop {w : Int} (h : LevelList b spare k l (w :: ws))
    (hlist : b'.freeList l = b.freeList l) (hcur : b'.freeCur l = b.freeList l w)
    (hlinked : ∀ v, Linked b' spare' k l v ↔ Linked b spare k l v ∧ v ≠ w) :
    LevelList b' spare' k l ws where
  chain := by
    rw [hlist, hcur]
    exact h.chain.2.2
  sorted := (List.pairwise_cons.mp h.sorted).2
  mem := fun v => by
    rw [hlinked, ← h.mem, List.mem_cons]
    have hlt := (List.pairwise_cons.mp h.sorted).1
    constructor
    · intro hv
      exact ⟨Or.inr hv, Int.ne_of_gt (hlt v hv)⟩
    · rintro ⟨hv, hne⟩
      exact hv.resolve_left hne

/-- A word before all others is linked at the front. -/
theorem push {w : Int} (h : LevelList b spare k l ws) (hw : 0 ≤ w) (hlt : ∀ v ∈ ws, w < v)
    (hlist : b'.freeList l = Function.update (b.freeList l) w (b.freeCur l))
    (hcur : b'.freeCur l = w)
    (hlinked : ∀ v, Linked b' spare k l v ↔ v = w ∨ Linked b spare k l v) :
    LevelList b' spare k l (w :: ws) where
  chain := by
    rw [hlist, hcur]
    exact h.chain.push (fun hm => Int.lt_irrefl w (hlt w hm)) (by omega)
  sorted := List.pairwise_cons.mpr ⟨hlt, h.sorted⟩
  mem := fun v => by rw [List.mem_cons, h.mem, hlinked]

/-- A word is linked behind the last word that is before it. -/
theorem insert {u w : Int} {us vs : List Int} (h : LevelList b spare k l (us ++ u :: vs))
    (hw : 0 ≤ w) (hus : ∀ v ∈ us, v < w) (huw : u < w) (hvs : ∀ v ∈ vs, w < v)
    (hlist : b'.freeList l =
      Function.update (Function.update (b.freeList l) w (b.freeList l u)) u w)
    (hcur : b'.freeCur l = b.freeCur l)
    (hlinked : ∀ v, Linked b' spare k l v ↔ v = w ∨ Linked b spare k l v) :
    LevelList b' spare k l (us ++ u :: w :: vs) where
  chain := by
    rw [hlist, hcur]
    refine h.chain.insert (h.sorted.imp fun hlt => Int.ne_of_lt hlt) (fun hm => ?_) (by omega)
    rw [List.mem_append, List.mem_cons] at hm
    rcases hm with hm | hm | hm
    · exact Int.lt_irrefl w (hus w hm)
    · omega
    · exact Int.lt_irrefl w (hvs w hm)
  sorted := by
    have hsorted := h.sorted
    simp only [List.pairwise_append, List.pairwise_cons, List.mem_cons] at hsorted ⊢
    obtain ⟨hsus, ⟨huvs, hsvs⟩, hcross⟩ := hsorted
    refine ⟨hsus, ⟨?_, hvs, hsvs⟩, ?_⟩
    · rintro v (rfl | hv)
      · exact huw
      · exact huvs v hv
    · rintro x hx v (rfl | rfl | hv)
      · exact hcross x hx v (Or.inl rfl)
      · exact hus x hx
      · exact hcross x hx v (Or.inr hv)
  mem := fun v => by
    rw [hlinked, ← h.mem]
    simp only [List.mem_append, List.mem_cons]
    constructor
    · rintro (hv | hv | hv | hv)
      · exact Or.inr (Or.inl hv)
      · exact Or.inr (Or.inr (Or.inl hv))
      · exact Or.inl hv
      · exact Or.inr (Or.inr (Or.inr hv))
    · rintro (hv | hv | hv | hv)
      · exact Or.inr (Or.inr (Or.inl hv))
      · exact Or.inl hv
      · exact Or.inr (Or.inl hv)
      · exact Or.inr (Or.inr (Or.inr hv))

/-- A level with no first word has no linked word at all. -/
theorem eq_nil_of_neg (h : LevelList b spare k l ws) (hcur : b.freeCur l < 0) : ws = [] := by
  cases ws with
  | nil => rfl
  | cons w ws =>
      obtain ⟨rfl, -⟩ := h.chain
      have := ((h.mem _).mp List.mem_cons_self).1
      omega

/-- Otherwise the first word is linked, before all others. -/
theorem exists_cons (h : LevelList b spare k l ws) (hcur : 0 ≤ b.freeCur l) :
    ∃ vs, ws = b.freeCur l :: vs ∧ ∀ v ∈ vs, b.freeCur l < v := by
  obtain ⟨vs, rfl, -⟩ := h.chain.exists_cons (by omega)
  exact ⟨vs, rfl, (List.pairwise_cons.mp h.sorted).1⟩

/-- A level has one right list at most. -/
theorem unique {ws' : List Int} (h : LevelList b spare k l ws) (h' : LevelList b' spare k l ws')
    (hlinked : ∀ v, Linked b' spare k l v ↔ Linked b spare k l v) : ws = ws' :=
  h.sorted.eq_of_mem_iff h'.sorted fun v =>
    ((h.mem v).trans (hlinked v).symm).trans (h'.mem v).symm

end LevelList

/-- The levels that a change leaves alone keep their lists. -/
theorem Listed.of_sameElse (h : Listed b spare k) (hsame : SameElse l b b')
    (hlevel : ∃ ws, LevelList b' spare k l ws) : Listed b' spare k := by
  intro m hm
  by_cases hml : m = l
  · rwa [hml]
  · obtain ⟨ws, hws⟩ := h m hm
    refine ⟨ws, hws.keep (hsame.freeList m hml) (hsame.freeCur m hml) fun v => ?_⟩
    unfold Linked
    rw [hsame.heap.numL, hsame.bitmap m hml]

/-- The lists do not depend on the table and the counter. -/
theorem Listed.of_eq (h : Listed b spare k) (hbitmap : b'.bitmap = b.bitmap)
    (hlist : b'.freeList = b.freeList) (hcur : b'.freeCur = b.freeCur) (hnum : b'.numL = b.numL) :
    Listed b' spare k := by
  intro l hl
  obtain ⟨ws, hws⟩ := h l hl
  refine ⟨ws, hws.keep (by rw [hlist]) (by rw [hcur]) fun v => ?_⟩
  unfold Linked
  rw [hbitmap, hnum]

/-! ### Words with one bit changed -/

/-- The word of a bit that is set is not empty. -/
theorem acoralSetBit_word_ne_zero (bitmap : Bitmap) (index : Nat) :
    acoralSetBit index bitmap (index / 32 : Nat) ≠ 0 := fun hzero => by
  have hclear := (word_eq_zero_iff (acoralSetBit index bitmap) (index / 32)).mp hzero index rfl
  simp at hclear

/-- The word of a set bit is not empty. -/
theorem word_ne_zero_of_bit {bitmap : Bitmap} {index : Nat} (h : bitmap.bit index = true) :
    bitmap (index / 32 : Nat) ≠ 0 := fun hzero => by
  rw [(word_eq_zero_iff bitmap (index / 32)).mp hzero index rfl] at h
  exact absurd h (by decide)

theorem linked_setBit {index : Nat} (hindex : index < 32 * b.numL l) (hnum : b'.numL = b.numL)
    (hbitmap : b'.bitmap l = acoralSetBit index (b.bitmap l)) (v : Int) :
    Linked b' spare k l v ↔ v = (index / 32 : Nat) ∨ Linked b spare k l v := by
  unfold Linked
  rw [hnum, hbitmap]
  by_cases hv : v = (index / 32 : Nat)
  · rw [hv]
    exact iff_of_true
      ⟨by omega, by omega, Or.inl (acoralSetBit_word_ne_zero _ _)⟩ (Or.inl rfl)
  · rw [acoralSetBit_of_ne _ _ hv, or_iff_right hv]

/-- A word that keeps a set bit stays linked. -/
theorem linked_clearBit {index : Nat} (hnum : b'.numL = b.numL)
    (hbitmap : b'.bitmap l = acoralClearBit index (b.bitmap l))
    (hword : b.bitmap l (index / 32 : Nat) ≠ 0) (hword' : b'.bitmap l (index / 32 : Nat) ≠ 0)
    (v : Int) : Linked b' spare k l v ↔ Linked b spare k l v := by
  unfold Linked
  rw [hnum]
  by_cases hv : v = (index / 32 : Nat)
  · rw [hv]
    simp only [hword, hword', ne_eq, not_false_eq_true, true_or]
  · rw [hbitmap, acoralClearBit_of_ne _ _ hv]

/-- A word that loses its last set bit does not belong to the list any
more. -/
theorem linked_clearBit_zero {index : Nat} (hnum : b'.numL = b.numL)
    (hbitmap : b'.bitmap l = acoralClearBit index (b.bitmap l))
    (hword' : b'.bitmap l (index / 32 : Nat) = 0) (hspare : ¬ (l = k ∧ spare (index / 32 : Nat)))
    (v : Int) :
    Linked b' spare k l v ↔ Linked b spare k l v ∧ v ≠ (index / 32 : Nat) := by
  unfold Linked
  rw [hnum]
  by_cases hv : v = (index / 32 : Nat)
  · rw [hv]
    refine iff_of_false (fun h => ?_) fun h => h.2 rfl
    exact h.2.2.elim (fun hne => hne hword') hspare
  · rw [hbitmap, acoralClearBit_of_ne _ _ hv, and_iff_left hv]

/-! ### The steps of a search -/

theorem takeBit_sameElse (l : Nat) (b : BlockCtr) : SameElse l b (takeBit l b).2 := by
  have hclear := SameElse.setBitmap b l (acoralClearBit (headIndex b l) (b.bitmap l))
  show SameElse l b (if _ then _ else _)
  split
  · exact hclear.trans (SameElse.setFreeCur _ l _)
  · exact hclear

theorem splitBlock_sameElse (l : Nat) (num : Int) (b : BlockCtr) :
    SameElse l b (splitBlock l num b) :=
  ((SameElse.setBitmap b l _).trans (SameElse.setFreeList _ l _ _)).trans
    (SameElse.setFreeCur _ l _)

/-- The word that a bit is taken from leaves the list if it was its last
one. -/
theorem takeBit_levelList (hws : LevelList b spare k l ws) (hcur : 0 ≤ b.freeCur l)
    (hword : b.bitmap l (b.freeCur l) ≠ 0) (hindex : (headIndex b l / 32 : Nat) = b.freeCur l)
    (hspare : ¬ (l = k ∧ spare (b.freeCur l))) :
    ∃ ws', LevelList (takeBit l b).2 spare k l ws' := by
  obtain ⟨vs, rfl, -⟩ := hws.exists_cons hcur
  have hnum := (takeBit_sameHeap l b).numL
  have hbitmap : (takeBit l b).2.bitmap l = acoralClearBit (headIndex b l) (b.bitmap l) := by
    rw [takeBit_bitmap, Function.update_self]
  by_cases hzero : acoralClearBit (headIndex b l) (b.bitmap l) (b.freeCur l) = 0
  · have htake : (takeBit l b).2 =
        (b.setBitmap l (acoralClearBit (headIndex b l) (b.bitmap l))).setFreeCur l
          (b.freeList l (b.freeCur l)) := by
      refine if_pos ?_
      show Function.update b.bitmap l _ l _ = 0
      rw [Function.update_self]
      exact hzero
    refine ⟨vs, hws.pop (by rw [htake]; rfl) ?_ fun v => ?_⟩
    · rw [htake]
      exact Function.update_self _ _ _
    · rw [← hindex]
      refine linked_clearBit_zero hnum hbitmap ?_ ?_ v
      · rwa [hbitmap, hindex]
      · rwa [hindex]
  · have htake : (takeBit l b).2 =
        b.setBitmap l (acoralClearBit (headIndex b l) (b.bitmap l)) := by
      refine if_neg ?_
      show ¬ Function.update b.bitmap l _ l _ = 0
      rw [Function.update_self]
      exact hzero
    refine ⟨_, hws.keep (by rw [htake]; rfl) (by rw [htake]; rfl) ?_⟩
    refine linked_clearBit hnum hbitmap ?_ ?_
    · rwa [hindex]
    · rwa [hbitmap, hindex]

theorem takeBit_listed (h : Listed b spare k) (hl : l ≤ k) (hcur : 0 ≤ b.freeCur l)
    (hword : b.bitmap l (b.freeCur l) ≠ 0) (hindex : (headIndex b l / 32 : Nat) = b.freeCur l)
    (hspare : ¬ (l = k ∧ spare (b.freeCur l))) : Listed (takeBit l b).2 spare k := by
  obtain ⟨ws, hws⟩ := h l hl
  exact h.of_sameElse (takeBit_sameElse l b) (takeBit_levelList hws hcur hword hindex hspare)

/-- A level without a free block gets one: its word becomes the list. -/
theorem splitBlock_levelList {i : Nat} (hws : LevelList b spare k l ws) (hcur : b.freeCur l < 0)
    (hi : i < 2 ^ 32) (hword : i < 32 * b.numL l) :
    LevelList (splitBlock l (i * 2 ^ (l + 1) : Nat) b) spare k l [(i / 32 : Nat)] := by
  obtain rfl := hws.eq_nil_of_neg hcur
  have hnil : b.freeCur l = -1 := hws.chain
  refine hws.push (Int.natCast_nonneg _) (fun v hv => by simp at hv) ?_ ?_
    (linked_setBit hword (splitBlock_sameHeap l _ b).numL ?_)
  · rw [hnil]
    unfold splitBlock
    rw [u32_mul_two_pow_div hi]
    exact Function.update_self _ _ _
  · unfold splitBlock
    rw [u32_mul_two_pow_div hi]
    exact Function.update_self _ _ _
  · rw [splitBlock_bitmap hi, Function.update_self]

theorem splitBlock_listed {i : Nat} (h : Listed b spare k) (hl : l < k) (hcur : b.freeCur l < 0)
    (hi : i < 2 ^ 32) (hword : i < 32 * b.numL l) :
    Listed (splitBlock l (i * 2 ^ (l + 1) : Nat) b) spare k := by
  obtain ⟨ws, hws⟩ := h l (by omega)
  exact h.of_sameElse (splitBlock_sameElse l _ b) ⟨_, splitBlock_levelList hws hcur hi hword⟩

/-- The search leaves the smaller levels alone. -/
theorem recusMallocFrom_freeCur (rounds l : Nat) (b : BlockCtr) {m : Nat} (hm : m < l) :
    (recusMallocFrom rounds l b).2.freeCur m = b.freeCur m := by
  induction rounds generalizing l with
  | zero => rfl
  | succ rounds ih =>
      have habove := ih (l + 1) (by omega)
      rw [recusMallocFrom]
      split
      · dsimp only
        split
        · exact habove
        · exact ((splitBlock_sameElse l _ _).freeCur m (by omega)).trans habove
      · exact (takeBit_sameElse l b).freeCur m (by omega)

/-- No block of the top level has its bit in a spare word. -/
def NoBlock (N k : Nat) (spare : Int → Prop) : Prop :=
  ∀ i, (i + 1) * 2 ^ k ≤ N → ¬ spare (i / 32 : Nat)

/-- A set bit is in no spare word. -/
theorem NoBlock.not_spare {t : Tiling N (k + 1)} {j : Nat} (h : NoBlock N k spare)
    (hmarks : Marks b t) (hl : l ≤ k) (hj : j < 32 * b.numL l)
    (hbit : (b.bitmap l).bit j = true) : ¬ (l = k ∧ spare (j / 32 : Nat)) := by
  rintro ⟨rfl, hspare⟩
  obtain ⟨i, hi, hij⟩ := (hmarks.mark l hl j hj).mp hbit
  rw [bitIndex, if_pos rfl] at hij
  subst hij
  exact h i hi.1.fits hspare

/-- A sound search keeps the lists right. The induction is on the levels
left, as in `recusMallocFrom_spec`. -/
theorem recusMallocFrom_listed {t : Tiling N (k + 1)} (h : Marks b t) (hlist : ListRange b k)
    (hused : UsedEntries b t) (hlisted : Listed b spare k) (hspare : NoBlock N k spare)
    (rounds : Nat) (hl : l + rounds = k + 1) {m : Nat} (hm : firstLevel b rounds l = some m)
    (hword : b.bitmap m (b.freeCur m) ≠ 0)
    (hhalf : m < k → b.blocks (headIndex b m * 2 ^ m : Nat) ≥ 0 ∨
      ∀ c < m, (b.bitmap c).bit (headIndex b m * 2 ^ (m - c)) = false) :
    Listed (recusMallocFrom rounds l b).2 spare k := by
  induction rounds generalizing l with
  | zero => simp [firstLevel] at hm
  | succ rounds ih =>
      unfold firstLevel at hm
      unfold recusMallocFrom
      by_cases hcur : b.freeCur l < 0
      · rw [if_pos hcur] at hm ⊢
        obtain ⟨i, t', hnum, hmarks, -, htaken, -⟩ :=
          recusMallocFrom_spec h hlist hused rounds (by omega) hm hword hhalf
        have habove := ih (by omega) hm
        have hk : l < k := by
          have := htaken.tile.level_lt
          omega
        simp only [hnum, show ¬ (((i * 2 ^ (l + 1) : Nat) : Int) < 0) by omega, if_false]
        obtain ⟨hindex, hi32⟩ := hmarks.pair_lt hk htaken.tile
        refine splitBlock_listed habove hk ?_ hi32 hindex
        rwa [recusMallocFrom_freeCur rounds (l + 1) b (Nat.lt_succ_self l)]
      · rw [if_neg hcur] at hm ⊢
        obtain rfl := Option.some.inj hm
        have hlk : l ≤ k := by omega
        obtain ⟨hbit, hindex, hj⟩ := headIndex_spec h hlist hlk (by omega) hword
        refine takeBit_listed hlisted hlk (by omega) hword hindex ?_
        rw [← hindex]
        exact hspare.not_spare h hlk hj hbit

/-- `buddy_r_malloc` keeps the lists right when its search is sound. -/
theorem buddyRMalloc_listed {t : Tiling N (k + 1)} (h : Marks b t) (hlist : ListRange b k)
    (hused : UsedEntries b t) (hlisted : Listed b spare k) (hspare : NoBlock N k spare)
    (hl : l ≤ k) (hs : searchSound b l = true) : Listed (buddyRMalloc l b).2 spare k := by
  obtain ⟨m, hm, hword, hhalf⟩ := searchSound_eq_true h.level hs
  -- the search starts with the counter lowered
  have hlow : Marks (b.setFreeNum (u32 (b.freeNum - 2 ^ l))) t :=
    ⟨h.level, h.blockNum, h.small, h.coalesced, h.words, h.mark, h.freeEntry⟩
  have hfirst : firstLevel (b.setFreeNum (u32 (b.freeNum - 2 ^ l))) (k + 1 - l) l = some m := by
    rw [← hm]
    exact firstLevel_congr _ _ fun _ _ _ => rfl
  have hsearched := recusMallocFrom_listed hlow (hlist.of_eq rfl rfl rfl) hused
    (hlisted.of_eq rfl rfl rfl rfl) hspare (k + 1 - l) (by omega) hfirst hword hhalf
  unfold buddyRMalloc recusMalloc
  dsimp only
  rw [show (b.setFreeNum (u32 (b.freeNum - 2 ^ l))).level = k + 1 from h.level]
  split
  · exact hsearched.of_eq rfl rfl rfl rfl
  · exact hsearched

/-- So does `buddy_malloc`. -/
theorem buddyMalloc_listed {t : Tiling N (k + 1)} {size ptr : Nat} (h : Marks b t)
    (hlist : ListRange b k) (hused : UsedEntries b t) (hlisted : Listed b spare k)
    (hspare : NoBlock N k spare) (hstate : b.state = MEM_OK) (hs : mallocSound size b = true)
    (hmalloc : buddyMalloc size b = some (ptr, b')) : Listed b' spare k := by
  rcases buddyMalloc_cases hstate hmalloc with ⟨-, rfl⟩ | ⟨l, hl, -, -, -, -, heq, hsearch⟩
  · exact hlisted
  rw [h.level] at hl
  rw [show b' = (buddyRMalloc l b).2 from congrArg Prod.snd heq]
  exact buddyRMalloc_listed h hlist hused hlisted hspare (by omega) (hsearch hs)

/-! ### The lists of a new heap -/

/-- The word of the top level that `buddy_init` links although no block has
its bit in it, if what is left of the heap is less than a block. -/
def SpareWord (N k : Nat) (w : Int) : Prop :=
  0 < N ∧ w = lastWord N k ∧ N / 2 ^ k ≤ 32 * lastWord N k

theorem noBlock_spareWord (N k : Nat) : NoBlock N k (SpareWord N k) := by
  rintro i hi ⟨-, hword, hspare⟩
  have hlt : i < N / 2 ^ k := (Nat.le_div_iff_mul_le (Nat.two_pow_pos k)).mpr hi
  omega

/-- Neighbouring words that each lead to the next one are a list. -/
theorem chain_range' {next : Int → Int} {last : Nat}
    (hnext : ∀ v < last, next (v : Nat) = (v : Int) + 1) (hlast : next (last : Nat) = -1)
    (n w : Nat) (hw : w + n = last) :
    Chain next (-1) (w : Nat) ((List.range' w (n + 1)).map Nat.cast) := by
  induction n generalizing w with
  | zero =>
      obtain rfl : w = last := hw
      exact ⟨rfl, by simp, hlast⟩
  | succ n ih =>
      rw [List.range'_succ, List.map_cons]
      refine ⟨rfl, by omega, ?_⟩
      rw [hnext w (by omega)]
      exact ih (w + 1) (by omega)

/-- A word of the top level is not empty when the first of its bits is
set. -/
theorem Started.topWord_ne_zero_iff (h : Started b N k) {w : Nat} (hw : w < b.numL k) :
    b.bitmap k (w : Nat) ≠ 0 ↔ 32 * w < N / 2 ^ k := by
  constructor
  · intro hne
    by_contra hge
    refine hne ((word_eq_zero_iff _ w).mpr fun j hj => ?_)
    rw [h.handed.topBit j (by omega), decide_eq_false (by omega)]
  · intro hlt
    have hbit : (b.bitmap k).bit (32 * w) = true := by
      rw [h.handed.topBit _ (by omega), decide_eq_true hlt]
    have hword := word_ne_zero_of_bit hbit
    rwa [show 32 * w / 32 = w by omega] at hword

/-- The linked words of the top level are those up to the last one. -/
theorem Started.linked_top_iff (h : Started b N k) (hN : 0 < N) (v : Int) :
    Linked b (SpareWord N k) k k v ↔ ∃ w : Nat, w ≤ lastWord N k ∧ (w : Int) = v := by
  have hlast := h.lastWord_lt hN
  have hpos := Nat.two_pow_pos k
  -- words before the last one are full
  have hfull : ∀ w < lastWord N k, 32 * w < N / 2 ^ k := fun w hw => by
    have hmul : (w + 1) * (2 ^ k * 32) ≤ N - 1 := by
      rw [← Nat.le_div_iff_mul_le (by omega)]
      exact hw
    rw [← Nat.succ_le_iff, Nat.le_div_iff_mul_le hpos]
    calc (32 * w).succ * 2 ^ k ≤ 32 * (w + 1) * 2 ^ k := Nat.mul_le_mul_right _ (by omega)
      _ = (w + 1) * (2 ^ k * 32) := by ring
      _ ≤ N := by omega
  constructor
  · rintro ⟨hv, hv', hlinked⟩
    obtain ⟨w, rfl⟩ := Int.eq_ofNat_of_zero_le hv
    refine ⟨w, ?_, rfl⟩
    rcases hlinked with hne | ⟨-, -, hw, -⟩
    · rw [h.topWord_ne_zero_iff (by omega), ← Nat.succ_le_iff, Nat.le_div_iff_mul_le hpos] at hne
      unfold lastWord
      rw [Nat.le_div_iff_mul_le (by omega)]
      have hexp : (32 * w).succ * 2 ^ k = w * (2 ^ k * 32) + 2 ^ k := by
        rw [Nat.succ_mul]
        ring
      omega
    · omega
  · rintro ⟨w, hw, rfl⟩
    refine ⟨by omega, by omega, ?_⟩
    by_cases hlt : 32 * w < N / 2 ^ k
    · exact Or.inl ((h.topWord_ne_zero_iff (by omega)).mpr hlt)
    · have heq : w = lastWord N k := by
        by_contra hne
        exact hlt (hfull w (by omega))
      subst heq
      exact Or.inr ⟨rfl, hN, rfl, by omega⟩

theorem Started.levelList_top (h : Started b N k) : ∃ ws, LevelList b (SpareWord N k) k k ws := by
  rcases Nat.eq_zero_or_pos N with rfl | hN
  · refine ⟨[], ?_, List.Pairwise.nil, fun v => iff_of_false (by simp) ?_⟩
    · exact h.handed.topCur
    · rintro ⟨hv, hv', hne | ⟨-, hN, -⟩⟩
      · obtain ⟨w, rfl⟩ := Int.eq_ofNat_of_zero_le hv
        have hlt := (h.topWord_ne_zero_iff (by omega)).mp hne
        simp at hlt
      · omega
  · have hlast := h.lastWord_lt hN
    refine ⟨(List.range' 0 (lastWord N k + 1)).map Nat.cast, ?_, ?_, fun v => ?_⟩
    · rw [h.handed.topCur, if_pos hN]
      refine chain_range' (fun v hv => ?_) ?_ (lastWord N k) 0 (Nat.zero_add _)
      · rw [h.handed.topNext v (by omega), if_pos hv]
      · rw [h.handed.topNext _ hlast, if_neg (Nat.lt_irrefl _)]
    · rw [List.pairwise_map]
      exact (List.pairwise_lt_range' 1).imp fun hlt => Int.ofNat_lt.mpr hlt
    · rw [h.linked_top_iff hN, List.mem_map]
      simp only [List.mem_range'_1, Nat.zero_le, true_and, Nat.zero_add, Nat.lt_succ_iff]

/-- Below the top level one word is linked for each binary digit 1. -/
theorem Started.levelList_low (h : Started b N k) (hl : l < k) :
    ∃ ws, LevelList b (SpareWord N k) k l ws := by
  have hlow := h.handed.low l hl
  have hlinked : ∀ v, Linked b (SpareWord N k) k l v ↔
      N / 2 ^ l % 2 = 1 ∧ v = (N / 2 ^ (l + 1) / 32 : Nat) := fun v => by
    constructor
    · rintro ⟨hv, hv', hne | ⟨hk, -⟩⟩
      · obtain ⟨w, rfl⟩ := Int.eq_ofNat_of_zero_le hv
        have hex : ∃ j, j / 32 = w ∧ (b.bitmap l).bit j = true := by
          by_contra hno
          push Not at hno
          exact hne ((word_eq_zero_iff _ w).mpr fun j hj => by simpa using hno j hj)
        obtain ⟨j, hjw, hj⟩ := hex
        rw [hlow.bit j (by omega), decide_eq_true_iff] at hj
        exact ⟨hj.1, by rw [← hjw, hj.2]⟩
      · omega
    · rintro ⟨hone, rfl⟩
      have hlt := h.digit_lt hl hone
      have hbit : (b.bitmap l).bit (N / 2 ^ (l + 1)) = true := by
        rw [hlow.bit _ hlt, decide_eq_true ⟨hone, rfl⟩]
      have hne := word_ne_zero_of_bit hbit
      generalize N / 2 ^ (l + 1) = q at hlt hne ⊢
      exact ⟨by omega, by omega, Or.inl hne⟩
  by_cases hone : N / 2 ^ l % 2 = 1
  · have hlt := h.digit_lt hl hone
    refine ⟨[(N / 2 ^ (l + 1) / 32 : Nat)], ?_, List.pairwise_singleton _ _, fun v => ?_⟩
    · rw [hlow.freeCur, if_pos hone]
      generalize N / 2 ^ (l + 1) = q at hlt ⊢
      refine ⟨rfl, by omega, ?_⟩
      rw [hlow.freeList _ (by omega) (by omega)]
      exact Chain.nil_iff.mpr rfl
    · rw [hlinked, List.mem_singleton, and_iff_right hone]
  · refine ⟨[], ?_, List.Pairwise.nil, fun v => ?_⟩
    · rw [hlow.freeCur, if_neg hone]
      exact Chain.nil_iff.mpr rfl
    · exact iff_of_false (by simp) fun hv => hone ((hlinked v).mp hv).1

/-- The lists of a new heap are right. -/
theorem Started.listed (h : Started b N k) : Listed b (SpareWord N k) k := by
  intro l hl
  rcases Nat.eq_or_lt_of_le hl with rfl | hl
  · exact h.levelList_top
  · exact h.levelList_low hl

end ACoral
