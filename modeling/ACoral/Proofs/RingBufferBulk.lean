import ACoral.Lib.GuardedRun
import ACoral.Proofs.RingBuffer

/-!
# `ACoral.Proofs.RingBufferBulk`: the bulk read of the ring buffer

The loop of `cat_ringbuffer_get_more` gets a byte before it looks at the count,
and counts the get that finds the buffer empty too.

- `getMoreLoop_represents`, `catRingbufferGetMore_represents`: what it takes,
  writes and returns, for every count.
- `ringbuffer_reachable`: every buffer that calls lead to holds a queue.
- `getMore_exact_iff`: the counts for which it is the bulk read that is meant.
-/

set_option autoImplicit false

namespace ACoral

open Lib (BoundedFifo run)

variable {rb : CatRingbuffer} {k : Nat} {q : BoundedFifo (BitVec 8) (2 ^ k - 1)}

/-! ### The loop -/

/-- The loop gets at least one byte, and as many as are asked for; one round more
finds that there are no bytes left. The induction is on the rounds. -/
theorem getMoreLoop_represents (h : rb.Represents k q) (size : BitVec 32) {fuel : Nat}
    (cnt : BitVec 32) (r : Nat) (out : List (BitVec 8)) (hr : r = max 1 (size.toNat - cnt.toNat))
    (hcnt : cnt.toNat + q.items.length + 1 < 2 ^ 32) (hfuel : r ≤ fuel) :
    ∃ rb', getMoreLoop size fuel rb cnt out = some
        ((cnt + BitVec.ofNat 32 (min r (q.items.length + 1)), out ++ q.items.take r), rb') ∧
      rb'.Represents k (q.popMany r) := by
  induction fuel generalizing rb q cnt out r with
  | zero => omega
  | succ fuel ih =>
      obtain ⟨rb₁, hget, h₁⟩ := catRingbufferGet_represents h
      have hone : (cnt + 1).toNat = cnt.toNat + 1 := by
        rw [BitVec.toNat_add, show (1 : BitVec 32).toNat = 1 by rfl, Nat.mod_eq_of_lt (by omega)]
      unfold getMoreLoop
      rw [hget, Option.bind_some]
      cases hitems : q.items with
      | nil =>
          -- the get failed: the round counts all the same
          have hmin : min r ([] : List (BitVec 8)).length.succ = 1 := by
            rw [List.length_nil]
            omega
          have hpop : q.pop = q.popMany r := by
            rw [BoundedFifo.pop_eq_popMany]
            exact BoundedFifo.popMany_of_le (by simp [hitems]) (by simp [hitems])
          refine ⟨rb₁, ?_, hpop ▸ h₁⟩
          rw [hmin, List.take_nil]
          exact if_neg fun hcond => absurd hcond.2 (by decide)
      | cons data items =>
          have hpop : q.pop.items = items := congrArg List.tail hitems
          simp only [List.head?_cons, Option.isSome_some, if_true, Option.toList_some, and_true]
          by_cases hmore : cnt + 1 < size
          · rw [if_pos hmore]
            have hlt : cnt.toNat + 1 < size.toNat := hone ▸ hmore
            obtain ⟨rb', hloop, hrep⟩ := ih h₁ (cnt + 1) (r - 1) (out ++ [data])
              (by rw [hone]; omega)
              (by rw [hone, hpop]; rw [hitems, List.length_cons] at hcnt; omega) (by omega)
            have hr1 : r - 1 + 1 = r := by omega
            refine ⟨rb', ?_, ?_⟩
            · have hmin : min r (items.length + 1 + 1) = min (r - 1) (items.length + 1) + 1 := by
                omega
              rw [hloop, hpop, List.length_cons, hmin, List.append_assoc, List.singleton_append,
                ← List.take_succ_cons, hr1, BitVec.add_assoc, BitVec.add_comm 1,
                ← BitVec.ofNat_add_ofNat]
              rfl
            · rw [BoundedFifo.pop_popMany, hr1] at hrep
              exact hrep
          · rw [if_neg hmore]
            have hle : size.toNat ≤ cnt.toNat + 1 := by
              rw [← hone]
              exact not_lt.mp hmore
            have hr1 : r = 1 := by omega
            subst hr1
            refine ⟨rb₁, ?_, BoundedFifo.pop_eq_popMany q ▸ h₁⟩
            have hmin : min 1 (items.length + 1 + 1) = 1 := by omega
            rw [List.length_cons, hmin, List.take_succ_cons, List.take_zero]
            rfl

/-- The bulk read, for every count: one byte at least, and a count of one more than
there were where the bytes do not reach. -/
theorem catRingbufferGetMore_represents (h : rb.Represents k q) (hk : k < 32) (size : BitVec 32) :
    ∃ rb', catRingbufferGetMore rb size = some
        ((if q.items = [] then 0 else BitVec.ofNat 32 (min (max 1 size.toNat) (q.items.length + 1)),
          q.items.take (max 1 size.toNat)), rb') ∧
      rb'.Represents k (q.popMany (max 1 size.toNat)) := by
  have hlen := h.length_lt
  have hpow : 2 ^ k ≤ 2 ^ 31 := Nat.pow_le_pow_right (by omega) (by omega)
  unfold catRingbufferGetMore
  rw [h.isEmpty_iff]
  by_cases hnil : q.items = []
  · have hsame : q.popMany (max 1 size.toNat) = q :=
      BoundedFifo.popMany_of_le (n := 0) (by simp [hnil]) (by simp [hnil])
    rw [if_pos hnil, hnil, List.isEmpty_nil, if_neg (by decide), List.take_nil, hsame]
    exact ⟨rb, rfl, h⟩
  · have hloop := getMoreLoop_represents h size 0 (max 1 size.toNat) [] (by simp)
      (by simp; omega) (show max 1 size.toNat ≤ size.toNat + 1 by omega)
    have hzero : ∀ cnt : BitVec 32, 0 + cnt = cnt := fun cnt => by simp
    rw [hzero, List.nil_append] at hloop
    rw [if_pos (by simpa using hnil), if_neg hnil]
    exact hloop

/-! ### Reachable buffers -/

/-- The buffer holds a queue. -/
def CatRingbuffer.Holds (rb : CatRingbuffer) (k : Nat) : Prop :=
  ∃ q : BoundedFifo (BitVec 8) (2 ^ k - 1), rb.Represents k q

/-- A put keeps it. In a buffer of one byte there is no room, and the byte that is
written is not in the queue. -/
theorem catRingbufferPut_holds (h : rb.Holds k) (data : BitVec 8) :
    ∃ err rb', catRingbufferPut rb data = some (err, rb') ∧ rb'.Holds k := by
  obtain ⟨q, h⟩ := h
  rcases Nat.eq_zero_or_pos k with rfl | hk
  · have hnil : q.items = [] := List.eq_nil_of_length_eq_zero (by have := h.length_lt; omega)
    have hfull : catRingbufferIsFull rb = true := by
      rw [h.isFull_iff]
      simp [BoundedFifo.isFull, hnil]
    have hin : rb.headIndex.toNat < rb.pBuffer.length := by
      rw [h.head, h.size]
      exact Nat.mod_lt _ (Nat.two_pow_pos 0)
    have hput : catRingbufferPut rb data = some (CAT_ERROR,
        { rb with
          pBuffer := rb.pBuffer.set rb.headIndex.toNat data
          tailIndex := rb.moveForward rb.tailIndex
          headIndex := rb.moveForward rb.headIndex }) := by
      unfold catRingbufferPut CatRingbuffer.write
      rw [if_pos hfull]
      exact congrArg _ (if_pos hin)
    refine ⟨_, _, hput, .empty, ?_, h.size_le, h.mask, ?_, ?_, .nil _ _⟩
    · exact (List.length_set ..).trans h.size
    · show (rb.moveForward rb.headIndex).toNat = _
      rw [h.moveForward, pow_zero, Nat.mod_one, Nat.mod_one]
    · show (rb.moveForward rb.tailIndex).toNat < 2 ^ 0
      rw [h.moveForward]
      exact Nat.mod_lt _ (Nat.two_pow_pos 0)
  · obtain ⟨rb', hput, hrep⟩ := catRingbufferPut_represents h hk data
    exact ⟨_, rb', hput, _, hrep⟩

theorem putMoreLoop_holds (h : rb.Holds k) (ret : BitVec 32) (pData : List (BitVec 8)) :
    ∃ ret' rb', putMoreLoop ret rb pData = some (ret', rb') ∧ rb'.Holds k := by
  induction pData generalizing rb ret with
  | nil => exact ⟨ret, rb, rfl, h⟩
  | cons data rest ih =>
      obtain ⟨err, rb₁, hput, h₁⟩ := catRingbufferPut_holds h data
      obtain ⟨ret', rb', hrest, h'⟩ := ih h₁ (ret + err)
      refine ⟨ret', rb', ?_, h'⟩
      show (catRingbufferPut rb data).bind _ = _
      rw [hput, Option.bind_some, hrest]

/-- Every call returns, and leaves a queue. -/
theorem ringbufferCall_holds (h : rb.Holds k) (hk : k < 32) (call : RingbufferCall) :
    ∃ rb', ringbufferCall rb call = some rb' ∧ rb'.Holds k := by
  cases call with
  | op op =>
      cases op with
      | put data =>
          obtain ⟨err, rb', hput, h'⟩ := catRingbufferPut_holds h data
          exact ⟨rb', by simp [ringbufferCall, ringbufferStep, hput], h'⟩
      | putMore size pData =>
          obtain ⟨ret, rb', hput, h'⟩ := putMoreLoop_holds h 0 pData.toList
          refine ⟨rb', ?_, h'⟩
          show ((catRingbufferPutMore rb size pData).map _).map _ = _
          unfold catRingbufferPutMore
          rw [hput]
          rfl
      | get =>
          obtain ⟨q, h⟩ := h
          obtain ⟨rb', hget, hrep⟩ := catRingbufferGet_represents h
          exact ⟨rb', by simp [ringbufferCall, ringbufferStep, hget], _, hrep⟩
      | clear =>
          obtain ⟨q, h⟩ := h
          refine ⟨_, rfl, .empty, h.size, h.size_le, h.mask, ?_, Nat.two_pow_pos k, .nil _ _⟩
          exact (Nat.zero_mod _).symm
  | getMore size =>
      obtain ⟨q, h⟩ := h
      obtain ⟨rb', hget, hrep⟩ := catRingbufferGetMore_represents h hk size
      exact ⟨rb', by simp [ringbufferCall, hget], _, hrep⟩

/-- Every sequence of calls from a fresh buffer of `2 ^ k` bytes on returns. -/
theorem ringbuffer_reachable {bufferSize : BitVec 32} (hsize : bufferSize.toNat = 2 ^ k)
    {space : List (BitVec 8)} (hspace : space.length = bufferSize.toNat)
    (calls : List RingbufferCall) :
    k < 32 ∧ ∃ rb rb', catRingbufferInit space bufferSize = some rb ∧
      run ringbufferCall rb calls = some rb' ∧ rb'.Holds k := by
  have hk : k < 32 := (Nat.pow_lt_pow_iff_right (by omega)).mp (hsize ▸ bufferSize.isLt)
  obtain ⟨rb, hinit, hrep⟩ := catRingbufferInit_represents hsize hspace
  have hrun : ∀ (calls : List RingbufferCall) (rb : CatRingbuffer), rb.Holds k →
      ∃ rb', run ringbufferCall rb calls = some rb' ∧ rb'.Holds k := by
    intro calls
    induction calls with
    | nil => exact fun rb h => ⟨rb, rfl, h⟩
    | cons call calls ih =>
        intro rb h
        obtain ⟨rb₁, hcall, h₁⟩ := ringbufferCall_holds h hk call
        obtain ⟨rb₂, hcalls, h₂⟩ := ih rb₁ h₁
        exact ⟨rb₂, by rw [Lib.run_cons, hcall, Option.bind_some, hcalls], h₂⟩
  obtain ⟨rb', hcalls, h'⟩ := hrun calls rb ⟨_, hrep⟩
  exact ⟨hk, rb, rb', hinit, hcalls, h'⟩

/-! ### The bulk read that is meant -/

/-- The oldest bytes, as many as are asked for and there are, are written to `p_data` and
leave the buffer, and their number is returned. -/
def GetsMore (rb : CatRingbuffer) (q : BoundedFifo (BitVec 8) (2 ^ k - 1)) (size : BitVec 32) :
    Prop :=
  ∃ rb', catRingbufferGetMore rb size = some
      ((BitVec.ofNat 32 (min size.toNat q.items.length), q.items.take size.toNat), rb') ∧
    rb'.Represents k (q.popMany size.toNat)

theorem getsMore_iff (h : rb.Represents k q) (hk : k < 32) (size : BitVec 32) :
    GetsMore rb q size ↔ q.items = [] ∨ 1 ≤ size.toNat ∧ size.toNat ≤ q.items.length := by
  have hlen := h.length_lt
  have hpow : 2 ^ k ≤ 2 ^ 31 := Nat.pow_le_pow_right (by omega) (by omega)
  obtain ⟨rb', hget, hrep⟩ := catRingbufferGetMore_represents h hk size
  by_cases hnil : q.items = []
  · have hsame : q.popMany (max 1 size.toNat) = q.popMany size.toNat :=
      BoundedFifo.popMany_of_le (by simp [hnil]) (by simp [hnil])
    refine iff_of_true ⟨rb', ?_, hsame ▸ hrep⟩ (Or.inl hnil)
    rw [hget, if_pos hnil, hnil, List.take_nil, List.take_nil]
    simp
  · have hpos : 0 < q.items.length := List.length_pos_iff.mpr hnil
    rw [or_iff_right hnil]
    rw [if_neg hnil] at hget
    constructor
    · -- the returned number says it already
      rintro ⟨rb'', hget', -⟩
      have hcount := congrArg (fun res => res.1.1.toNat) (Option.some.inj (hget.symm.trans hget'))
      simp only [BitVec.toNat_ofNat] at hcount
      rw [Nat.mod_eq_of_lt (by omega), Nat.mod_eq_of_lt (by omega)] at hcount
      omega
    · rintro ⟨hone, hle⟩
      have hmax : max 1 size.toNat = size.toNat := by omega
      rw [hmax] at hget hrep
      refine ⟨rb', ?_, hrep⟩
      rw [hget, Nat.min_eq_left (by omega), Nat.min_eq_left hle]

/-- In every buffer that calls lead to, a bulk read does what is meant exactly when the
buffer is empty, or at least one byte is asked for and there are as many. -/
theorem getMore_exact_iff {bufferSize : BitVec 32} (hsize : bufferSize.toNat = 2 ^ k)
    {space : List (BitVec 8)} (hspace : space.length = bufferSize.toNat)
    (calls : List RingbufferCall) :
    ∃ rb rb', ∃ q : BoundedFifo (BitVec 8) (2 ^ k - 1),
      catRingbufferInit space bufferSize = some rb ∧
      run ringbufferCall rb calls = some rb' ∧ rb'.Represents k q ∧
      ∀ size, GetsMore rb' q size ↔
        q.items = [] ∨ 1 ≤ size.toNat ∧ size.toNat ≤ q.items.length := by
  obtain ⟨hk, rb, rb', hinit, hrun, q, hrep⟩ := ringbuffer_reachable hsize hspace calls
  exact ⟨rb, rb', q, hinit, hrun, hrep, fun size => getsMore_iff hrep hk size⟩

/-- Two bytes in a buffer of four. -/
theorem getMore_exact_iff_two :
    ∃ rb rb', ∃ q : BoundedFifo (BitVec 8) (2 ^ 2 - 1),
      catRingbufferInit [0, 0, 0, 0] 4 = some rb ∧
      run ringbufferCall rb [.op (.put 7), .op (.put 8)] = some rb' ∧ rb'.Represents 2 q ∧
      ∀ size, GetsMore rb' q size ↔
        q.items = [] ∨ 1 ≤ size.toNat ∧ size.toNat ≤ q.items.length :=
  getMore_exact_iff (show (4 : BitVec 32).toNat = 2 ^ 2 by decide)
    (show [0, 0, 0, 0].length = (4 : BitVec 32).toNat from rfl) [.op (.put 7), .op (.put 8)]

/-- The buffer then, and its queue. -/
def twoBytes : CatRingbuffer :=
  { pBuffer := [7, 8, 0, 0], ringMask := 3, tailIndex := 0, headIndex := 2 }

def twoQueued : BoundedFifo (BitVec 8) (2 ^ 2 - 1) := ⟨[7, 8], by decide⟩

/-- Of two bytes, a read of three returns 3, and a read of none takes one. -/
theorem getMore_exact_fails :
    (catRingbufferInit [0, 0, 0, 0] 4).bind
        (run ringbufferCall · [.op (.put 7), .op (.put 8)]) = some twoBytes ∧
      twoBytes.Represents 2 twoQueued ∧
      catRingbufferGetMore twoBytes 3 = some ((3, [7, 8]), { twoBytes with tailIndex := 2 }) ∧
      catRingbufferGetMore twoBytes 0 = some ((1, [7]), { twoBytes with tailIndex := 1 }) ∧
      ¬ GetsMore twoBytes twoQueued 3 ∧ ¬ GetsMore twoBytes twoQueued 0 := by
  have hrep : twoBytes.Represents 2 twoQueued :=
    ⟨rfl, by decide, by decide, by decide, by decide, by decide, by decide⟩
  refine ⟨by decide, hrep, by decide, by decide, ?_, ?_⟩
  · rw [getsMore_iff hrep (by decide)]
    decide
  · rw [getsMore_iff hrep (by decide)]
    decide

end ACoral
