import ACoral.Kernel.ResPoolSystem
import ACoral.Proofs.ResPool.Word
import Mathlib.Data.List.Iterate

/-!
# `ACoral.Proofs.ResPool.Pool`: the resources of one pool

`freeChain` follows the free resources of a pool, `free_num` steps from
`res_free` on. `GoodPool` is the invariant of a pool: the chain visits
every resource that is not held once, its free words carry their own
index, and a held resource carries its id.

- `GoodPool.init`: `acoral_pool_res_init` chains all resources.
- `GoodPool.take`: `acoral_get_res` takes the first resource of the chain.
- `GoodPool.give`: `acoral_release_res` puts a held one in front of it.
- `GoodPool.congr`: other writes do not matter.
-/

set_option autoImplicit false

namespace ACoral

/-! ### Iterated steps -/

/-- Only the values at the points that are met matter. -/
theorem iterate_congr {α : Type} {f g : α → α} {a : α} {n : Nat}
    (h : ∀ x ∈ List.iterate f a n, g x = f x) : List.iterate g a n = List.iterate f a n := by
  induction n generalizing a with
  | zero => rfl
  | succ n ih =>
      have ha : g a = f a := h a List.mem_cons_self
      rw [List.iterate, List.iterate, ha, ih fun x hx => h x (List.mem_cons_of_mem a hx)]

/-! ### Addresses -/

/-- A resource of the pool lies below the end of memory. -/
theorem ptrAdd_of_lt {base size num k : Nat} (hfits : base + size * num ≤ 2 ^ 32)
    (hsize : 0 < size) (hk : k < num) : ptrAdd base (k * size) = base + k * size := by
  have hmul : (k + 1) * size ≤ num * size := Nat.mul_le_mul_right size hk
  rw [Nat.add_mul, Nat.one_mul, Nat.mul_comm num size] at hmul
  exact Nat.mod_eq_of_lt (by omega)

/-- Different resources have different addresses. -/
theorem resAdr_injective {base size k k' : Nat} (hsize : 0 < size)
    (h : base + k * size = base + k' * size) : k = k' :=
  Nat.eq_of_mul_eq_mul_right hsize (Nat.add_left_cancel h)

/-- The index that `acoral_release_res` computes. -/
theorem resAdr_index {base size k : Nat} (hsize : 0 < size) :
    (base + k * size - base) / size = k := by
  rw [Nat.add_sub_cancel_left, Nat.mul_div_cancel k hsize]

/-! ### The chain -/

/-- The resource after a free one. -/
def nextFree (word : Nat → BitVec 32) (base size res : Nat) : Nat :=
  ptrAdd base ((nextId (word res)).toNat * size)

/-- The free resources in the order in which they will be handed out. -/
def freeChain (word : Nat → BitVec 32) (base size resFree freeNum : Nat) : List Nat :=
  List.iterate (nextFree word base size) resFree freeNum

theorem length_freeChain (word : Nat → BitVec 32) (base size resFree freeNum : Nat) :
    (freeChain word base size resFree freeNum).length = freeNum :=
  List.length_iterate ..

/-- The words of other addresses do not matter. -/
theorem freeChain_congr {word word' : Nat → BitVec 32} {base size resFree freeNum : Nat}
    (h : ∀ r ∈ freeChain word base size resFree freeNum, word' r = word r) :
    freeChain word' base size resFree freeNum = freeChain word base size resFree freeNum :=
  iterate_congr fun r hr => by rw [nextFree, h r hr, nextFree]

/-! ### The invariant of a pool -/

/-- The resources of a pool at `base`, with the numbers that
`acoral_create_pool` has written. -/
structure PoolShape (size num base : Nat) : Prop where
  sizeMin : 4 ≤ size
  pos : 1 ≤ num
  small : num ≤ RES_INDEX_NUM
  fits : base + size * num ≤ 2 ^ 32

theorem PoolShape.size_pos {size num base : Nat} (hs : PoolShape size num base) : 0 < size :=
  Nat.lt_of_lt_of_le (by decide) hs.sizeMin

/-- The free resources of a pool are chained, and the held ones carry
their ids. -/
structure GoodPool (size num base : Nat) (id : BitVec 32) (resFree freeNum : Nat)
    (word : Nat → BitVec 32) (held : List Nat) : Prop where
  nodup : (freeChain word base size resFree freeNum).Nodup
  mem : ∀ r, r ∈ freeChain word base size resFree freeNum ↔
    ∃ k, k < num ∧ r = base + k * size ∧ r ∉ held
  free : ∀ k < num, base + k * size ∉ held → ∃ next, word (base + k * size) = freeWord k next
  heldId : ∀ k < num, base + k * size ∈ held → coreId (word (base + k * size)) = resId k id

namespace GoodPool

variable {size num base : Nat} {id : BitVec 32} {resFree freeNum : Nat}
  {word word' : Nat → BitVec 32} {held held' : List Nat}

/-- Only the words of the resources matter, and which of them are held. -/
theorem congr (h : GoodPool size num base id resFree freeNum word held)
    (hword : ∀ k < num, word' (base + k * size) = word (base + k * size))
    (hheld : ∀ k < num, base + k * size ∈ held' ↔ base + k * size ∈ held) :
    GoodPool size num base id resFree freeNum word' held' := by
  have hchain : freeChain word' base size resFree freeNum =
      freeChain word base size resFree freeNum := by
    apply freeChain_congr
    intro r hr
    obtain ⟨k, hk, rfl, -⟩ := (h.mem r).mp hr
    exact hword k hk
  constructor
  · rw [hchain]
    exact h.nodup
  · intro r
    rw [hchain, h.mem]
    constructor
    · rintro ⟨k, hk, rfl, hnot⟩
      exact ⟨k, hk, rfl, fun hm => hnot ((hheld k hk).mp hm)⟩
    · rintro ⟨k, hk, rfl, hnot⟩
      exact ⟨k, hk, rfl, fun hm => hnot ((hheld k hk).mpr hm)⟩
  · intro k hk hnot
    rw [hword k hk]
    exact h.free k hk fun hm => hnot ((hheld k hk).mpr hm)
  · intro k hk hm
    rw [hword k hk]
    exact h.heldId k hk ((hheld k hk).mp hm)

/-- The scheduler rewrites the CPU field of a held id. -/
theorem setCpu (h : GoodPool size num base id resFree freeNum word held) {res : Nat}
    (hres : res ∈ held) (cpu : Nat) :
    GoodPool size num base id resFree freeNum
      (Function.update word res (rdyqueueAddId (word res) cpu)) held := by
  have hold : ∀ r, r ∉ held →
      Function.update word res (rdyqueueAddId (word res) cpu) r = word r := by
    intro r hr
    refine Function.update_of_ne (fun he => hr ?_) _ _
    rw [he]
    exact hres
  have hchain : freeChain (Function.update word res (rdyqueueAddId (word res) cpu)) base size
      resFree freeNum = freeChain word base size resFree freeNum := by
    apply freeChain_congr
    intro r hr
    obtain ⟨-, -, -, hnot⟩ := (h.mem r).mp hr
    exact hold r hnot
  constructor
  · rw [hchain]
    exact h.nodup
  · rw [hchain]
    exact h.mem
  · intro k hk hnot
    rw [hold _ hnot]
    exact h.free k hk hnot
  · intro k hk hm
    have hid := h.heldId k hk hm
    by_cases he : base + k * size = res
    · rw [he] at hid ⊢
      rw [Function.update_self, coreId_rdyqueueAddId, hid]
    · rw [Function.update_of_ne he, hid]

/-- What `acoral_get_res` takes: the first resource of the chain, which
is not held. -/
theorem first (h : GoodPool size num base id resFree freeNum word held) (hfree : 0 < freeNum) :
    ∃ k, k < num ∧ resFree = base + k * size ∧ resFree ∉ held := by
  obtain ⟨n, rfl⟩ := Nat.exists_eq_succ_of_ne_zero (Nat.ne_of_gt hfree)
  exact (h.mem resFree).mp List.mem_cons_self

/-- `acoral_get_res`. The resource leaves the chain, and its word becomes
its id. -/
theorem take (hs : PoolShape size num base)
    (h : GoodPool size num base id resFree freeNum word held) (hfree : 0 < freeNum)
    {type : ResType} {i : Fin ACORAL_MAX_POOLS} (hid : id = poolId type i) :
    GoodPool size num base id (nextFree word base size resFree) (freeNum - 1)
      (Function.update word resFree
        (((word resFree).sshiftRight (ACORAL_RES_INDEX_INIT_BIT - ACORAL_RES_INDEX_BIT)
          &&& ACORAL_RES_INDEX_MASK) ||| id)) (resFree :: held) := by
  obtain ⟨k, hk, hres, hnot⟩ := h.first hfree
  have hsize : 0 < size := hs.size_pos
  obtain ⟨n, rfl⟩ := Nat.exists_eq_succ_of_ne_zero (Nat.ne_of_gt hfree)
  have hcons : freeChain word base size resFree (n + 1) =
      resFree :: freeChain word base size (nextFree word base size resFree) n := rfl
  have hnd := h.nodup
  rw [hcons] at hnd
  obtain ⟨hout, hnd⟩ := List.nodup_cons.mp hnd
  rw [Nat.succ_sub_one]
  have hchain : ∀ w, freeChain (Function.update word resFree w) base size
      (nextFree word base size resFree) n =
      freeChain word base size (nextFree word base size resFree) n := by
    intro w
    apply freeChain_congr
    intro r hr
    have hne : r ≠ resFree := fun he => hout (he ▸ hr)
    exact Function.update_of_ne hne _ _
  constructor
  · rw [hchain]
    exact hnd
  · intro r
    rw [hchain]
    have hmem := h.mem r
    rw [hcons, List.mem_cons] at hmem
    constructor
    · intro hr
      obtain ⟨k', hk', hr', hheld⟩ := hmem.mp (Or.inr hr)
      refine ⟨k', hk', hr', List.not_mem_cons_of_ne_of_not_mem (fun he => hout ?_) hheld⟩
      exact he ▸ hr
    · rintro ⟨k', hk', hr', hheld⟩
      rw [List.mem_cons, not_or] at hheld
      exact (hmem.mpr ⟨k', hk', hr', hheld.2⟩).resolve_left hheld.1
  · intro k' hk' hheld
    rw [List.mem_cons, not_or] at hheld
    rw [Function.update_of_ne hheld.1]
    exact h.free k' hk' hheld.2
  · intro k' hk' hheld
    by_cases he : base + k' * size = resFree
    · have hkk : k' = k := resAdr_injective hsize (he.trans hres)
      obtain ⟨next, hw⟩ := h.free k hk (hres ▸ hnot)
      rw [← hres] at hw
      have hsmall : k < RES_INDEX_NUM := Nat.lt_of_lt_of_le hk hs.small
      rw [he, Function.update_self, hw, getResId_freeWord hsmall, hid, hkk,
        coreId_resId hsmall]
    · rw [Function.update_of_ne he]
      exact h.heldId k' hk' ((List.mem_cons.mp hheld).resolve_left he)

/-- `acoral_release_res`. The held resource goes in front of the chain, and
its word takes its index and that of the resource behind it. -/
theorem give (hs : PoolShape size num base)
    (h : GoodPool size num base id resFree freeNum word held) (hnodup : held.Nodup) {k : Nat}
    (hk : k < num) (hheld : base + k * size ∈ held) (next : BitVec 16)
    (hnext : 0 < freeNum → ptrAdd base (next.toNat * size) = resFree) :
    GoodPool size num base id (base + k * size) (freeNum + 1)
      (Function.update word (base + k * size) (freeWord k next)) (held.erase (base + k * size)) := by
  have hsize := hs.size_pos
  have hout : base + k * size ∉ freeChain word base size resFree freeNum := by
    intro hm
    obtain ⟨-, -, -, hnot⟩ := (h.mem _).mp hm
    exact hnot hheld
  have hmemErase : ∀ r, r ∈ held.erase (base + k * size) ↔ r ≠ base + k * size ∧ r ∈ held :=
    fun r => hnodup.mem_erase_iff
  have hchain : freeChain (Function.update word (base + k * size) (freeWord k next)) base size
      (base + k * size) (freeNum + 1) =
      (base + k * size) :: freeChain word base size resFree freeNum := by
    have hcons : ∀ w, freeChain w base size (base + k * size) (freeNum + 1) =
        (base + k * size) ::
          freeChain w base size (nextFree w base size (base + k * size)) freeNum := fun w => rfl
    rw [hcons, List.cons.injEq]
    refine ⟨rfl, ?_⟩
    rw [nextFree, Function.update_self, nextId_freeWord]
    rcases Nat.eq_zero_or_pos freeNum with rfl | hpos
    · rfl
    · rw [hnext hpos]
      apply freeChain_congr
      intro r hr
      have hne : r ≠ base + k * size := fun he => hout (he ▸ hr)
      exact Function.update_of_ne hne _ _
  constructor
  · rw [hchain]
    exact List.nodup_cons.mpr ⟨hout, h.nodup⟩
  · intro r
    rw [hchain, List.mem_cons, h.mem]
    constructor
    · rintro (rfl | ⟨k', hk', hr, hnot⟩)
      · exact ⟨k, hk, rfl, fun hm => ((hmemErase _).mp hm).1 rfl⟩
      · exact ⟨k', hk', hr, fun hm => hnot ((hmemErase _).mp hm).2⟩
    · rintro ⟨k', hk', hr, hnot⟩
      by_cases he : r = base + k * size
      · exact Or.inl he
      · exact Or.inr ⟨k', hk', hr, fun hm => hnot ((hmemErase _).mpr ⟨he, hm⟩)⟩
  · intro k' hk' hnot
    by_cases he : base + k' * size = base + k * size
    · have hkk : k' = k := resAdr_injective hsize he
      exact ⟨next, by rw [he, Function.update_self, hkk]⟩
    · rw [Function.update_of_ne he]
      exact h.free k' hk' fun hm => hnot ((hmemErase _).mpr ⟨he, hm⟩)
  · intro k' hk' hm
    obtain ⟨hne, hm⟩ := (hmemErase _).mp hm
    rw [Function.update_of_ne hne]
    exact h.heldId k' hk' hm

/-- The index that `acoral_release_res` reads from the first resource of
the chain leads back to it, also after the word of another one has
changed. -/
theorem next_of_first (hs : PoolShape size num base)
    (h : GoodPool size num base id resFree freeNum word held) (hfree : 0 < freeNum) {res : Nat}
    (hres : res ∈ held) (w : BitVec 32) :
    ptrAdd base ((((Function.update word res w resFree).sshiftRight
      ACORAL_RES_INDEX_INIT_BIT).setWidth 16).toNat * size) = resFree := by
  obtain ⟨k, hk, hresFree, hnot⟩ := h.first hfree
  have hne : resFree ≠ res := fun he => hnot (he ▸ hres)
  obtain ⟨next, hw⟩ := h.free k hk (hresFree ▸ hnot)
  have hsmall : k < 2 ^ 16 :=
    Nat.lt_of_lt_of_le (Nat.lt_of_lt_of_le hk hs.small) (by decide)
  rw [Function.update_of_ne hne, hresFree, hw, index_freeWord, BitVec.toNat_ofNat,
    Nat.mod_eq_of_lt hsmall]
  exact ptrAdd_of_lt hs.fits hs.size_pos hk

/-- The number of free resources. -/
theorem freeNum_eq (hs : PoolShape size num base)
    (h : GoodPool size num base id resFree freeNum word held) :
    freeNum = ((List.range num).filter fun k => base + k * size ∉ held).length := by
  have hinj : ∀ k k', base + k * size = base + k' * size → k = k' := fun k k' =>
    resAdr_injective hs.size_pos
  have hperm : (freeChain word base size resFree freeNum).Perm
      (((List.range num).filter fun k => base + k * size ∉ held).map fun k => base + k * size) := by
    rw [List.perm_ext_iff_of_nodup h.nodup]
    · intro r
      simp only [h.mem, List.mem_map, List.mem_filter, List.mem_range, decide_eq_true_eq]
      constructor
      · rintro ⟨k, hk, rfl, hnot⟩
        exact ⟨k, ⟨hk, hnot⟩, rfl⟩
      · rintro ⟨k, ⟨hk, hnot⟩, rfl⟩
        exact ⟨k, hk, rfl, hnot⟩
    · exact (List.nodup_range.filter _).map hinj
  have hlen := hperm.length_eq
  rwa [length_freeChain, List.length_map] at hlen

end GoodPool

/-! ### A new pool -/

section

variable {size num base : Nat}

/-- The words that the loop of `acoral_pool_res_init` writes from the
resource `i` on. The induction is on the resources before the last one. -/
theorem poolResInitLoop_word (hsize : 0 < size) (left i : Nat) (word : Nat → BitVec 32)
    (hnum : i + left + 1 = num) (hfits : base + size * num ≤ 2 ^ 32) :
    (∀ k, i ≤ k → k < num → poolResInitLoop size left i (base + i * size) word (base + k * size) =
      freeWord k (if k + 1 < num then BitVec.ofNat 16 (k + 1) else 0)) ∧
    ∀ r, (∀ k, i ≤ k → k < num → r ≠ base + k * size) →
      poolResInitLoop size left i (base + i * size) word r = word r := by
  induction left generalizing i word with
  | zero =>
      constructor
      · intro k hik hk
        obtain rfl : k = i := by omega
        rw [poolResInitLoop, Function.update_self, if_neg (by omega)]
        rfl
      · intro r hr
        rw [poolResInitLoop]
        exact Function.update_of_ne (hr i (Nat.le_refl i) (by omega)) _ _
  | succ left ih =>
      have hnext : ptrAdd (base + i * size) size = base + (i + 1) * size := by
        have hlt := ptrAdd_of_lt hfits hsize (show i + 1 < num by omega)
        rw [ptrAdd] at hlt ⊢
        rw [Nat.add_assoc, ← Nat.succ_mul]
        exact hlt
      obtain ⟨hin, hout⟩ := ih (i + 1)
        (Function.update word (base + i * size)
          (setNextId (BitVec.ofNat 32 i <<< ACORAL_RES_INDEX_INIT_BIT) (BitVec.ofNat 16 (i + 1))))
        (by omega)
      constructor
      · intro k hik hk
        rw [poolResInitLoop, hnext]
        rcases Nat.eq_or_lt_of_le hik with rfl | hlt
        · rw [hout, Function.update_self, if_pos (by omega)]
          · rfl
          · exact fun k' hk' _ he => by
              have hkk := resAdr_injective hsize he
              omega
        · exact hin k hlt hk
      · intro r hr
        rw [poolResInitLoop, hnext, hout]
        · exact Function.update_of_ne (hr i (Nat.le_refl i) (by omega)) _ _
        · exact fun k hik hk => hr k (by omega) hk

/-- The words of a new pool. -/
theorem acoralPoolResInit_word (hs : PoolShape size num base) (word : Nat → BitVec 32) :
    (∀ k < num, acoralPoolResInit base size num word (base + k * size) =
      freeWord k (if k + 1 < num then BitVec.ofNat 16 (k + 1) else 0)) ∧
    ∀ r, (∀ k < num, r ≠ base + k * size) → acoralPoolResInit base size num word r = word r := by
  have hsmall : num ≤ 1024 := hs.small
  have hpos := hs.pos
  have hleft : (num + 2 ^ 32 - 1) % 2 ^ 32 = num - 1 := by omega
  obtain ⟨hin, hout⟩ := poolResInitLoop_word hs.size_pos (num - 1) 0 word
    (by omega) hs.fits
  rw [Nat.zero_mul, Nat.add_zero] at hin hout
  rw [acoralPoolResInit, hleft]
  exact ⟨fun k hk => hin k (Nat.zero_le k) hk, fun r hr => hout r fun k _ hk => hr k hk⟩

/-- The chain of a new pool, from the resource `i` on. -/
theorem freeChain_init (hs : PoolShape size num base) {word : Nat → BitVec 32}
    (hword : ∀ k < num, word (base + k * size) =
      freeWord k (if k + 1 < num then BitVec.ofNat 16 (k + 1) else 0))
    (left i : Nat) (hnum : i + left = num) :
    freeChain word base size (base + i * size) left =
      (List.range' i left).map fun k => base + k * size := by
  induction left generalizing i with
  | zero => rfl
  | succ left ih =>
      have hcons : freeChain word base size (base + i * size) (left + 1) =
          (base + i * size) ::
            freeChain word base size (nextFree word base size (base + i * size)) left := rfl
      rw [hcons, List.range'_succ, List.map_cons]
      congr 1
      rcases Nat.eq_zero_or_pos left with rfl | hpos
      · rfl
      · have hlt : i + 1 < num := by omega
        have hsmall : num ≤ 1024 := hs.small
        rw [nextFree, hword i (by omega), nextId_freeWord, if_pos hlt, BitVec.toNat_ofNat,
          Nat.mod_eq_of_lt (show i + 1 < 2 ^ 16 by omega), ptrAdd_of_lt hs.fits hs.size_pos hlt]
        exact ih (i + 1) (by omega)

/-- A new pool, of which nothing is held. -/
theorem GoodPool.init (hs : PoolShape size num base) (word : Nat → BitVec 32) (id : BitVec 32)
    {held : List Nat} (hheld : ∀ k < num, base + k * size ∉ held) :
    GoodPool size num base id base num (acoralPoolResInit base size num word) held := by
  obtain ⟨hin, -⟩ := acoralPoolResInit_word hs word
  have hchain := freeChain_init hs hin num 0 (Nat.zero_add num)
  rw [Nat.zero_mul, Nat.add_zero, ← List.range_eq_range'] at hchain
  constructor
  · rw [hchain]
    exact List.nodup_range.map fun k k' => resAdr_injective hs.size_pos
  · intro r
    rw [hchain, List.mem_map]
    constructor
    · rintro ⟨k, hk, rfl⟩
      exact ⟨k, List.mem_range.mp hk, rfl, hheld k (List.mem_range.mp hk)⟩
    · rintro ⟨k, hk, rfl, -⟩
      exact ⟨k, List.mem_range.mpr hk, rfl⟩
  · exact fun k hk _ => ⟨_, hin k hk⟩
  · exact fun k hk hm => absurd hm (hheld k hk)

end

end ACoral
