import ACoral.Proofs.Buddy.Lists

/-!
# `ACoral.Proofs.Buddy.Relink`: when a release keeps the lists right

`buddy_free` links a word where it belongs only if the word was empty, and
takes one out only if it is the first of its list. On the top level it links
nothing. `mergeSound` and `freeSound` say that the release does not run into
one of the other cases.

- `insertWalk_spec`, `unlinkWalk_mem`: where the two walks end.
- `insertBlock_listed`, `removePair_listed`: one round of the loop.
- `freeLoop_listed`, `buddyFree_listed`: the loop and the whole call.
-/

set_option autoImplicit false

namespace ACoral

open Lib

variable {b b' : BlockCtr} {spare : Int → Prop} {N k l : Nat} {ws : List Int}

/-! ### The walks of a release -/

/-- The walk to the place of a word ends at the last linked word before
it. The induction is on the steps of the walk. -/
theorem insertWalk_spec {freeList : Int → Int} {cur tempCur last : Int} {fuel : Nat}
    (hchain : Chain freeList (-1) tempCur ws) (hsorted : ws.Pairwise (· < ·)) (hcur : cur ∉ ws)
    (htemp : tempCur ≠ -1) (hlt : tempCur < cur)
    (hwalk : insertWalk freeList cur fuel tempCur = some last) :
    ∃ us vs, ws = us ++ last :: vs ∧ (∀ v ∈ us, v < cur) ∧ last < cur ∧ ∀ v ∈ vs, cur < v := by
  induction fuel generalizing tempCur ws with
  | zero => simp [insertWalk] at hwalk
  | succ fuel ih =>
      obtain ⟨vs, rfl, hrest⟩ := hchain.exists_cons htemp
      obtain ⟨-, hvs⟩ := List.pairwise_cons.mp hsorted
      have hcur' : cur ∉ vs := fun hm => hcur (List.mem_cons_of_mem _ hm)
      unfold insertWalk at hwalk
      split at hwalk
      · rename_i hgo
        obtain ⟨us, vs', rfl, hus, hlast, hvs'⟩ := ih hrest hvs hcur' hgo.1 hgo.2 hwalk
        refine ⟨tempCur :: us, vs', rfl, fun v hv => ?_, hlast, hvs'⟩
        rcases List.mem_cons.mp hv with rfl | hv
        · exact hlt
        · exact hus v hv
      · rename_i hstop
        obtain rfl := Option.some.inj hwalk
        refine ⟨[], vs, rfl, fun v hv => by simp at hv, hlt, fun v hv => ?_⟩
        -- the rest of the list starts behind the word
        have hne : freeList tempCur ≠ -1 := fun he => by
          rw [he] at hrest
          rw [hrest.eq_nil] at hv
          simp at hv
        obtain ⟨xs, rfl, -⟩ := hrest.exists_cons hne
        have hnext : cur ≠ freeList tempCur := fun he => hcur' (he ▸ List.mem_cons_self)
        rcases List.mem_cons.mp hv with rfl | hv
        · omega
        · have := (List.pairwise_cons.mp hvs).1 v hv
          omega

/-- The walk to a linked word ends at a linked word, if it ends. -/
theorem unlinkWalk_mem {freeList : Int → Int} {cur tempCur last : Int} {fuel : Nat}
    (hchain : Chain freeList (-1) tempCur ws) (hcur : cur ∈ ws)
    (hwalk : unlinkWalk freeList cur fuel tempCur = some last) : last ∈ ws := by
  induction fuel generalizing tempCur ws with
  | zero => simp [unlinkWalk] at hwalk
  | succ fuel ih =>
      cases ws with
      | nil => simp at hcur
      | cons w ws =>
          obtain ⟨rfl, -, hrest⟩ := hchain
          unfold unlinkWalk at hwalk
          split at hwalk
          · rw [← Option.some.inj hwalk]
            exact List.mem_cons_self
          · rename_i hne
            have hcur' : cur ∈ ws := (List.mem_cons.mp hcur).resolve_left hne
            split at hwalk
            · exact List.mem_cons_of_mem _ (ih hrest hcur' hwalk)
            · rw [← Option.some.inj hwalk]
              cases ws with
              | nil => simp at hcur'
              | cons v ws => exact hrest.1 ▸ List.mem_cons_of_mem _ List.mem_cons_self

/-! ### The steps of a release -/

theorem insertBlock_sameElse {fuel index : Nat} (h : insertBlock fuel l index b = some b') :
    SameElse l b b' := by
  have hset := SameElse.setBitmap b l (acoralSetBit index (b.bitmap l))
  unfold insertBlock at h
  dsimp only at h
  split at h
  · obtain rfl := Option.some.inj h
    exact (hset.trans (SameElse.setFreeList _ l _ _)).trans (SameElse.setFreeCur _ l _)
  · split at h
    · obtain ⟨tempCur, -, rfl⟩ := Option.map_eq_some_iff.mp h
      exact (hset.trans (SameElse.setFreeList _ l _ _)).trans (SameElse.setFreeList _ l _ _)
    · obtain rfl := Option.some.inj h
      exact hset

theorem removePair_sameElse {fuel index : Nat} (h : removePair fuel l index b = some b') :
    SameElse l b b' := by
  have hclear := SameElse.setBitmap b l (acoralClearBit index (b.bitmap l))
  obtain ⟨tempCur, -, rfl⟩ := Option.map_eq_some_iff.mp h
  split
  · exact hclear.trans (SameElse.setFreeCur _ l _)
  · exact hclear

/-- A pair gets its first free block: its word is linked, if it was empty,
or it is the first one of the list. -/
theorem insertBlock_levelList {fuel index : Nat} (hws : LevelList b spare k l ws)
    (hindex : index < 32 * b.numL l) (hspare : ¬ (l = k ∧ spare (index / 32 : Nat)))
    (hsound : b.bitmap l (index / 32 : Nat) = 0 ∨ (index / 32 : Nat) = b.freeCur l)
    (hinsert : insertBlock fuel l index b = some b') : ∃ ws', LevelList b' spare k l ws' := by
  obtain ⟨hheap, hbitmap⟩ := insertBlock_spec hinsert
  have hlinked : ∀ v, Linked b' spare k l v ↔ v = (index / 32 : Nat) ∨ Linked b spare k l v :=
    linked_setBit hindex hheap.numL (by rw [hbitmap, Function.update_self])
  have hcur0 : (0 : Int) ≤ (index / 32 : Nat) := Int.natCast_nonneg _
  unfold insertBlock at hinsert
  dsimp only at hinsert
  generalize ((index / 32 : Nat) : Int) = cur at *
  split at hinsert
  · rename_i hfront
    obtain rfl := Option.some.inj hinsert
    refine ⟨cur :: ws, hws.push hcur0 (fun v hv => ?_) ?_ ?_ hlinked⟩
    · -- all words of the list are at its first one or behind it
      by_cases hneg : b.freeCur l < 0
      · rw [hws.eq_nil_of_neg hneg] at hv
        simp at hv
      · obtain ⟨vs, rfl, hvs⟩ := hws.exists_cons (by omega)
        have hlt : cur < b.freeCur l := hfront.resolve_left hneg
        rcases List.mem_cons.mp hv with rfl | hv
        · exact hlt
        · have := hvs v hv
          omega
    · exact Function.update_self _ _ _
    · exact Function.update_self _ _ _
  · rename_i hfront
    have hfront : 0 ≤ b.freeCur l ∧ b.freeCur l ≤ cur := by push Not at hfront; exact hfront
    split at hinsert
    · rename_i hbehind
      have hbehind : b.freeCur l < cur := hbehind
      obtain ⟨tempCur, hwalk, rfl⟩ := Option.map_eq_some_iff.mp hinsert
      have hzero := hsound.resolve_right (by omega)
      have hnotMem : cur ∉ ws := fun hm => by
        have hmem := ((hws.mem cur).mp hm).2.2
        exact hmem.elim (fun hne => hne hzero) hspare
      obtain ⟨us, vs, rfl, hus, hlast, hvs⟩ := insertWalk_spec hws.chain hws.sorted hnotMem
        (by omega) hbehind hwalk
      refine ⟨_, hws.insert hcur0 hus hlast hvs ?_ rfl hlinked⟩
      show Function.update (Function.update b.freeList l _) l (Function.update
        (Function.update b.freeList l _ l) tempCur cur) l = _
      rw [Function.update_self, Function.update_self]
      rfl
    · rename_i hbehind
      obtain rfl := Option.some.inj hinsert
      -- the word is the first one of the list
      have heq : cur = b.freeCur l := Int.le_antisymm (Int.not_lt.mp hbehind) hfront.2
      obtain ⟨vs, rfl, -⟩ := hws.exists_cons (by omega)
      have hmem := (hws.mem cur).mp (heq ▸ List.mem_cons_self)
      refine ⟨_, hws.keep rfl rfl fun v => (hlinked v).trans ⟨?_, Or.inr⟩⟩
      rintro (rfl | hv)
      · exact hmem
      · exact hv

theorem insertBlock_listed {fuel index : Nat} (h : Listed b spare k) (hl : l ≤ k)
    (hindex : index < 32 * b.numL l) (hspare : ¬ (l = k ∧ spare (index / 32 : Nat)))
    (hsound : b.bitmap l (index / 32 : Nat) = 0 ∨ (index / 32 : Nat) = b.freeCur l)
    (hinsert : insertBlock fuel l index b = some b') : Listed b' spare k := by
  obtain ⟨ws, hws⟩ := h l hl
  exact h.of_sameElse (insertBlock_sameElse hinsert)
    (insertBlock_levelList hws hindex hspare hsound hinsert)

/-- A pair loses its free block: its word leaves the list, if it was the
first one and has no other, or stays. -/
theorem removePair_levelList {fuel index : Nat} (hws : LevelList b spare k l ws) (hl : l < k)
    (hindex : index < 32 * b.numL l) (hbit : (b.bitmap l).bit index = true)
    (hsound : acoralClearBit index (b.bitmap l) (index / 32 : Nat) ≠ 0 ∨
      (index / 32 : Nat) = b.freeCur l)
    (hremove : removePair fuel l index b = some b') : ∃ ws', LevelList b' spare k l ws' := by
  obtain ⟨hheap, hbitmap⟩ := removePair_spec hremove
  have hbitmap' : b'.bitmap l = acoralClearBit index (b.bitmap l) := by
    rw [hbitmap, Function.update_self]
  have hword := word_ne_zero_of_bit hbit
  have hspare : ¬ (l = k ∧ spare (index / 32 : Nat)) := fun hk => by omega
  have hmem : ((index / 32 : Nat) : Int) ∈ ws :=
    (hws.mem _).mpr ⟨by omega, by omega, Or.inl hword⟩
  obtain ⟨tempCur, hwalk, hb'⟩ := Option.map_eq_some_iff.mp hremove
  have hlast : tempCur ∈ ws := unlinkWalk_mem hws.chain hmem hwalk
  have htest : (b.setBitmap l (acoralClearBit index (b.bitmap l))).bitmap l =
      acoralClearBit index (b.bitmap l) := Function.update_self _ _ _
  rw [htest] at hb'
  by_cases hzero : acoralClearBit index (b.bitmap l) (index / 32 : Nat) = 0
  · -- the word is the first one, so the walk ends there at once
    have hfirst := hsound.resolve_left fun hne => hne hzero
    obtain rfl : tempCur = (index / 32 : Nat) := by
      cases fuel with
      | zero => simp [unlinkWalk] at hwalk
      | succ fuel =>
          have hstart : ((index / 32 : Nat) : Int) =
              (b.setBitmap l (acoralClearBit index (b.bitmap l))).freeCur l := hfirst
          rw [unlinkWalk, if_pos hstart] at hwalk
          rw [← Option.some.inj hwalk]
          exact hstart.symm
    rw [if_pos hzero] at hb'
    obtain ⟨vs, rfl, -⟩ := hws.exists_cons (by omega)
    rw [← hfirst] at hws
    refine ⟨vs, hws.pop ?_ ?_ (linked_clearBit_zero hheap.numL hbitmap' (by rwa [hbitmap']) hspare)⟩
    · rw [← hb']
      rfl
    · rw [← hb']
      exact Function.update_self _ _ _
  · have hkeep : acoralClearBit index (b.bitmap l) tempCur ≠ 0 := by
      by_cases htemp : tempCur = (index / 32 : Nat)
      · rwa [htemp]
      · rw [acoralClearBit_of_ne _ _ htemp]
        exact ((hws.mem tempCur).mp hlast).2.2.resolve_right fun hk => by omega
    rw [if_neg hkeep] at hb'
    refine ⟨ws, hws.keep (by rw [← hb']; rfl) (by rw [← hb']; rfl) ?_⟩
    exact linked_clearBit hheap.numL hbitmap' hword (by rwa [hbitmap'])

theorem removePair_listed {fuel index : Nat} (h : Listed b spare k) (hl : l < k)
    (hindex : index < 32 * b.numL l) (hbit : (b.bitmap l).bit index = true)
    (hsound : acoralClearBit index (b.bitmap l) (index / 32 : Nat) ≠ 0 ∨
      (index / 32 : Nat) = b.freeCur l)
    (hremove : removePair fuel l index b = some b') : Listed b' spare k := by
  obtain ⟨ws, hws⟩ := h l (by omega)
  exact h.of_sameElse (removePair_sameElse hremove)
    (removePair_levelList hws hl hindex hbit hsound hremove)

/-! ### The release -/

/-- `mergeSound` looks at the levels from `l` on. -/
theorem mergeSound_congr (rounds l index : Nat) (hlevel : b'.level = b.level)
    (hbitmap : ∀ m, l ≤ m → b'.bitmap m = b.bitmap m)
    (hcur : ∀ m, l ≤ m → b'.freeCur m = b.freeCur m) :
    mergeSound b' rounds l index = mergeSound b rounds l index := by
  induction rounds generalizing l index with
  | zero => rfl
  | succ rounds ih =>
      have hrest := fun index => ih (l + 1) index (fun m hm => hbitmap m (by omega))
        fun m hm => hcur m (by omega)
      unfold mergeSound
      rw [hlevel, hbitmap l (Nat.le_refl l), hcur l (Nat.le_refl l), hrest]

/-- The loop keeps the lists right when `mergeSound` says so. The induction
is on the levels left, as in `freeLoop_spec`. -/
theorem freeLoop_listed {t : Tiling N (k + 1)} {i fuel : Nat} (h : Marks b t)
    (hlisted : Listed b spare k) (hspare : NoBlock N k spare) (rounds : Nat)
    (hl : l + rounds = k + 1) (htile : t.IsTile l i) (hu : t.used (i * 2 ^ l) = true)
    (hsound : mergeSound b rounds l (bitIndex k l i) = true)
    (hloop : freeLoop fuel rounds l (bitIndex k l i) b = some b') : Listed b' spare k := by
  induction rounds generalizing l i b t with
  | zero =>
      have := htile.level_lt
      omega
  | succ rounds ih =>
      have hlk : l ≤ k := by omega
      have hindex := h.words l hlk i htile.1
      unfold freeLoop at hloop
      unfold mergeSound at hsound
      rw [acoralGetBit_eq_bit] at hloop hsound
      split at hloop
      · rename_i hclear
        rw [if_pos hclear, Bool.or_eq_true, decide_eq_true_iff, decide_eq_true_iff] at hsound
        refine insertBlock_listed hlisted hlk hindex ?_ hsound hloop
        rintro ⟨rfl, hs⟩
        rw [bitIndex, if_pos rfl] at hs
        exact hspare i htile.fits hs
      · rename_i hset
        rw [if_neg hset, Bool.and_eq_true, Bool.or_eq_true, decide_eq_true_iff,
          decide_eq_true_iff] at hsound
        rw [Bool.not_eq_false] at hset
        rcases Nat.eq_or_lt_of_le hlk with rfl | hlk
        · -- at the top the bit is that of the block itself
          obtain ⟨x, hx, hij⟩ := (h.mark l (Nat.le_refl l) _ hindex).mp hset
          rw [bitIndex, bitIndex, if_pos rfl, if_pos rfl] at hij
          exact absurd (hij ▸ hx) (Marks.not_free_of_used hu)
        have hhalf : bitIndex k l i = i / 2 := if_neg (by omega)
        rw [hhalf] at hset hloop hindex hsound
        obtain ⟨b₁, hremove, hrest⟩ := Option.bind_eq_some_iff.mp hloop
        obtain ⟨hheap, hbitmap⟩ := removePair_spec hremove
        have hsame := removePair_sameElse hremove
        obtain ⟨c, hc, hci, hfree⟩ := h.free_buddy hlk htile hu hset
        obtain ⟨t₁, hmarks, htile₁, hu₁, -, -⟩ := h.join hlk htile hu hc hci hfree hheap hbitmap
        have hlisted₁ := removePair_listed hlisted hlk hindex hset hsound.1 hremove
        have hnext : (if l + 1 < k + 1 - 1 then i / 2 / 2 else i / 2) =
            bitIndex k (l + 1) (i / 2) := by
          rw [bitIndex]
          by_cases hk : l + 1 = k
          · rw [if_pos hk, if_neg (by omega)]
          · rw [if_neg hk, if_pos (by omega)]
        have hlater : mergeSound b₁ rounds (l + 1) (bitIndex k (l + 1) (i / 2)) = true := by
          rw [mergeSound_congr rounds (l + 1) _ hheap.level
            (fun m hm => hsame.bitmap m (by omega)) fun m hm => hsame.freeCur m (by omega),
            ← hnext, ← h.level]
          exact hsound.2
        dsimp only at hrest
        rw [hmarks.level, hnext] at hrest
        exact ih hmarks hlisted₁ (by omega) htile₁ hu₁ hlater hrest

/-- A block of the top level goes back to a word that is linked, any other
one goes through the loop. -/
theorem freeFrom_listed {t : Tiling N (k + 1)} {i fuel : Nat} (h : Marks b t)
    (hlisted : Listed b spare k) (hspare : NoBlock N k spare) (htile : t.IsTile l i)
    (hu : t.used (i * 2 ^ l) = true)
    (htop : l = k → b.bitmap k (i / 32 : Nat) ≠ 0)
    (hsound : l ≠ k → mergeSound b (k + 1 - l) l (i / 2) = true)
    (hfree : freeFrom fuel l (i * 2 ^ l) b = some b') : Listed b' spare k := by
  have hlk := htile.level_lt
  unfold freeFrom at hfree
  rw [h.level, Nat.add_sub_cancel] at hfree
  split at hfree
  · rename_i hk
    subst hk
    rw [mul_two_pow_div] at hfree
    obtain rfl := Option.some.inj hfree
    have hindex := h.words l (Nat.le_refl l) i htile.1
    rw [bitIndex, if_pos rfl] at hindex
    obtain ⟨ws, hws⟩ := hlisted l (Nat.le_refl l)
    have hmem : Linked b spare l l (i / 32 : Nat) := ⟨by omega, by omega, Or.inl (htop rfl)⟩
    have hlinked : ∀ v, Linked (b.setBitmap l (acoralSetBit i (b.bitmap l))) spare l l v ↔
        v = (i / 32 : Nat) ∨ Linked b spare l l v :=
      linked_setBit hindex rfl (Function.update_self _ _ _)
    refine hlisted.of_sameElse (SameElse.setBitmap b l _) ⟨ws, hws.keep rfl rfl fun v => ?_⟩
    refine (hlinked v).trans ⟨?_, Or.inr⟩
    rintro (rfl | hv)
    · exact hmem
    · exact hv
  · rename_i hk
    have hindex : bitIndex k l i = i / 2 := if_neg hk
    rw [div_two_pow_succ, mul_two_pow_div, ← hindex] at hfree
    refine freeLoop_listed h hlisted hspare (k + 1 - l) (by omega) htile hu ?_ hfree
    rw [hindex]
    exact hsound hk

/-- `buddy_free` keeps the lists right on a block with an even number, when
`freeSound` says so. -/
theorem buddyFree_listed {t : Tiling N (k + 1)} {i fuel : Nat} (h : Marks b t)
    (hused : UsedEntries b t) (hlisted : Listed b spare k) (hspare : NoBlock N k spare)
    (hstate : b.state = MEM_OK) (hend : b.endAdr = b.startAdr + N * 2 ^ BLOCK_SHIFT)
    (htile : t.IsTile l i) (hu : t.used (i * 2 ^ l) = true) (heven : i * 2 ^ l % 2 = 0)
    (hptr : b.startAdr + i * 2 ^ l * 2 ^ BLOCK_SHIFT ≠ 0)
    (hsound : freeSound (b.startAdr + i * 2 ^ l * 2 ^ BLOCK_SHIFT) b = true)
    (hfree : buddyFree fuel (b.startAdr + i * 2 ^ l * 2 ^ BLOCK_SHIFT) b = some b') :
    Listed b' spare k := by
  have hindex : blockIndex (i * 2 ^ l : Nat) = (i * 2 ^ l / 2 : Nat) := by
    unfold blockIndex
    omega
  have hlevel := hused l i htile hu heven
  have hnum : (b.startAdr + i * 2 ^ l * 2 ^ BLOCK_SHIFT - b.startAdr) / 2 ^ BLOCK_SHIFT =
      i * 2 ^ l := by
    rw [Nat.add_sub_cancel_left, mul_two_pow_div]
  rw [buddyFree_eq h hstate hend htile hptr, if_neg (by omega),
    freeEven_eq hused htile hu heven] at hfree
  unfold freeSound at hsound
  dsimp only at hsound
  rw [hnum, hindex, hlevel, Int.toNat_natCast, h.level, Nat.add_sub_cancel, mul_two_pow_div,
    div_two_pow_succ, mul_two_pow_div] at hsound
  refine freeFrom_listed (h.handBack l i) (hlisted.of_eq rfl rfl rfl rfl) hspare htile hu ?_ ?_
    hfree
  · intro hk
    rw [if_pos hk, decide_eq_true_iff, hk] at hsound
    exact hsound
  · intro hk
    rw [if_neg hk] at hsound
    have hsame : mergeSound (handBack l i b) (k + 1 - l) l (i / 2) =
        mergeSound b (k + 1 - l) l (i / 2) :=
      mergeSound_congr _ _ _ rfl (fun _ _ => rfl) fun _ _ => rfl
    rwa [hsame]

end ACoral
