import ACoral.Kernel.RingBuffer
import ACoral.Lib.BoundedFifo
import ACoral.Lib.Simulation

/-!
# `ACoral.Proofs.RingBuffer`: the ring buffer is a bounded queue

A buffer of `2 ^ k` bytes holds up to `2 ^ k - 1` of them: one place stays
free, so that full and empty differ. `Represents` relates the buffer to the
queue of its bytes.

- `catRingbufferIsFull_iff`, `catRingbufferIsEmpty_iff`: what the indices say.
- `catRingbufferPut_represents`, `catRingbufferGet_represents`,
  `putMoreLoop_represents`: one operation.
- `ringbuffer_refines_fifo`: every run of the operations, from a fresh
  buffer on, answers as the queue does, and stays inside of the buffer.
-/

set_option autoImplicit false

namespace ACoral

open Lib (BoundedFifo Laid outputs answers)

/-! ### The queue that is meant -/

/-- What a queue answers to an operation. -/
inductive FifoAnswer where
  /-- how many of the oldest bytes were dropped -/
  | put (dropped : Nat)
  /-- the oldest byte, when there is one -/
  | get (data : Option (BitVec 8))
  | clear

/-- The operations on a queue. -/
def fifoStep {cap : Nat} (q : BoundedFifo (BitVec 8) cap) :
    RingbufferOp → FifoAnswer × BoundedFifo (BitVec 8) cap
  | .put data        => (.put (q.pushAll [data]).1, (q.pushAll [data]).2)
  | .putMore _ pData => (.put (q.pushAll pData.toList).1, (q.pushAll pData.toList).2)
  | .get             => (.get q.items.head?, q.pop)
  | .clear           => (.clear, .empty)

/-- The result of a call says what the queue answers: success of a put is that
nothing was dropped, success of a get that there was a byte. -/
def RingbufferResult.Says (res : RingbufferResult) : FifoAnswer → Prop
  | .put dropped => res = ⟨some (if dropped = 0 then CAT_EOK else CAT_ERROR), none⟩
  | .get data    => res = ⟨some (if data.isSome then CAT_EOK else CAT_ERROR), data⟩
  | .clear       => res = ⟨none, none⟩

/-! ### Indices -/

section Indices

variable {k : Nat}

/-- The mask is a remainder. -/
theorem toNat_and_mask {mask : BitVec 32} (hmask : mask.toNat = 2 ^ k - 1) (x : BitVec 32) :
    (x &&& mask).toNat = x.toNat % 2 ^ k := by
  rw [BitVec.toNat_and, hmask, Nat.and_two_pow_sub_one_eq_mod]

/-- The size divides the range of an index. -/
theorem mod_size (hk : k ≤ 32) (x : Nat) : x % 2 ^ 32 % 2 ^ k = x % 2 ^ k :=
  Nat.mod_mod_of_dvd x (Nat.pow_dvd_pow 2 hk)

/-- The distance of two indices, also when the difference wraps. -/
theorem toNat_sub_mod (hk : k ≤ 32) {head tail : BitVec 32} {n : Nat}
    (hhead : head.toNat = (tail.toNat + n) % 2 ^ k) :
    (head - tail).toNat % 2 ^ k = n % 2 ^ k := by
  have htail : tail.toNat ≤ 2 ^ 32 := tail.isLt.le
  have hsum : 2 ^ 32 - tail.toNat + (tail.toNat + n) = 2 ^ 32 + n := by omega
  have hzero : 2 ^ 32 % 2 ^ k = 0 := Nat.mod_eq_zero_of_dvd (Nat.pow_dvd_pow 2 hk)
  calc (head - tail).toNat % 2 ^ k
      = (2 ^ 32 - tail.toNat + (tail.toNat + n) % 2 ^ k) % 2 ^ k := by
        rw [BitVec.toNat_sub, mod_size hk, hhead]
    _ = (2 ^ 32 + n) % 2 ^ k := by rw [Nat.add_mod_mod, hsum]
    _ = n % 2 ^ k := by rw [Nat.add_mod, hzero, Nat.zero_add, Nat.mod_mod]

end Indices

/-! ### The relation -/

/-- The bytes from `tail_index` on are the queue. -/
structure CatRingbuffer.Represents (rb : CatRingbuffer) (k : Nat)
    (q : BoundedFifo (BitVec 8) (2 ^ k - 1)) : Prop where
  size : rb.pBuffer.length = 2 ^ k
  /-- it fits into an `acoral_u32` -/
  size_le : k ≤ 32
  mask : rb.ringMask.toNat = 2 ^ k - 1
  head : rb.headIndex.toNat = (rb.tailIndex.toNat + q.items.length) % 2 ^ k
  tail : rb.tailIndex.toNat < 2 ^ k
  laid : Laid rb.pBuffer rb.tailIndex.toNat q.items

namespace CatRingbuffer.Represents

variable {rb : CatRingbuffer} {k : Nat} {q : BoundedFifo (BitVec 8) (2 ^ k - 1)}

/-- There is always a free place. -/
theorem length_lt (h : rb.Represents k q) : q.items.length < 2 ^ k := by
  have hle := q.length_le
  have hpos := Nat.two_pow_pos k
  omega

theorem moveForward (h : rb.Represents k q) (index : BitVec 32) :
    (rb.moveForward index).toNat = (index.toNat + 1) % 2 ^ k := by
  have hone : (index + 1).toNat = (index.toNat + 1) % 2 ^ 32 := BitVec.toNat_add index 1
  show ((index + 1) &&& rb.ringMask).toNat = _
  rw [toNat_and_mask h.mask, hone, mod_size h.size_le]

theorem isFull_iff (h : rb.Represents k q) : catRingbufferIsFull rb = q.isFull := by
  have hdist : ((rb.headIndex - rb.tailIndex) &&& rb.ringMask).toNat = q.items.length := by
    rw [toNat_and_mask h.mask, toNat_sub_mod h.size_le h.head, Nat.mod_eq_of_lt h.length_lt]
  show decide _ = decide _
  rw [decide_eq_decide, ← BitVec.toNat_inj, hdist, h.mask]

theorem isEmpty_iff (h : rb.Represents k q) : catRingbufferIsEmpty rb = q.items.isEmpty := by
  have hlt := h.length_lt
  have htail := h.tail
  have hindex : rb.headIndex = rb.tailIndex ↔ q.items.length = 0 := by
    rw [← BitVec.toNat_inj, h.head]
    constructor
    · intro heq
      rcases Nat.lt_or_ge (rb.tailIndex.toNat + q.items.length) (2 ^ k) with hnone | hwrap
      · rw [Nat.mod_eq_of_lt hnone] at heq
        omega
      · rw [Nat.mod_eq_sub_mod hwrap, Nat.mod_eq_of_lt (by omega)] at heq
        omega
    · intro hzero
      rw [hzero, Nat.add_zero, Nat.mod_eq_of_lt htail]
  show decide _ = _
  rw [Bool.eq_iff_iff, decide_eq_true_eq, hindex, List.length_eq_zero_iff, List.isEmpty_iff]

/-- The tail moves over the oldest byte. -/
theorem pop {data : BitVec 8} {items : List (BitVec 8)} (h : rb.Represents k q)
    (hitems : q.items = data :: items) :
    rb.pBuffer[rb.tailIndex.toNat]? = some data ∧
      { rb with tailIndex := rb.moveForward rb.tailIndex }.Represents k q.pop := by
  have hpop : q.pop.items = items := congrArg List.tail hitems
  obtain ⟨hget, hnext⟩ := (hitems ▸ h.laid : Laid _ _ (data :: items)).pop
  rw [h.size, Nat.mod_eq_of_lt h.tail] at hget
  rw [h.size, ← h.moveForward] at hnext
  refine ⟨hget, h.size, h.size_le, h.mask, ?_, ?_, hpop ▸ hnext⟩
  · show rb.headIndex.toNat = ((rb.moveForward rb.tailIndex).toNat + q.pop.items.length) % 2 ^ k
    rw [h.moveForward, Nat.mod_add_mod, h.head, hpop, hitems, List.length_cons, Nat.add_assoc,
      Nat.add_comm 1]
  · show (rb.moveForward rb.tailIndex).toNat < 2 ^ k
    rw [h.moveForward]
    exact Nat.mod_lt _ (Nat.two_pow_pos k)

/-- A write where there is room. -/
theorem write (h : rb.Represents k q) (hroom : q.items.length < 2 ^ k - 1) (data : BitVec 8) :
    ∃ rb', rb.write data = some rb' ∧ rb'.Represents k (q.push data) := by
  have hin : rb.headIndex.toNat < rb.pBuffer.length := by
    rw [h.head, h.size]
    exact Nat.mod_lt _ (Nat.two_pow_pos k)
  have hpush := BoundedFifo.push_items_of_lt hroom data
  have hlaid := h.laid.push (by rw [h.size]; omega) data
  rw [h.size, ← h.head, ← hpush] at hlaid
  refine ⟨_, if_pos hin, ?_, h.size_le, h.mask, ?_, h.tail, hlaid⟩
  · exact (List.length_set ..).trans h.size
  · show (rb.moveForward rb.headIndex).toNat = _
    rw [h.moveForward, h.head, Nat.mod_add_mod, hpush, List.length_append, List.length_singleton,
      Nat.add_assoc]

end CatRingbuffer.Represents

/-! ### One operation -/

section Operations

variable {rb : CatRingbuffer} {k : Nat} {q : BoundedFifo (BitVec 8) (2 ^ k - 1)}

theorem catRingbufferPut_represents (h : rb.Represents k q) (hk : 1 ≤ k) (data : BitVec 8) :
    ∃ rb', catRingbufferPut rb data = some (if q.isFull then CAT_ERROR else CAT_EOK, rb') ∧
      rb'.Represents k (q.push data) := by
  have htwo : 2 ≤ 2 ^ k := Nat.le_self_pow (by omega) 2
  unfold catRingbufferPut
  rw [h.isFull_iff]
  cases hfull : q.isFull with
  | false =>
      have hlt : q.items.length < 2 ^ k - 1 :=
        lt_of_le_of_ne q.length_le (of_decide_eq_false hfull)
      obtain ⟨rb', hwrite, hrep⟩ := h.write hlt data
      refine ⟨rb', ?_, hrep⟩
      rw [if_neg Bool.false_ne_true, hwrite]
      rfl
  | true =>
      have hlen : q.items.length = 2 ^ k - 1 := of_decide_eq_true hfull
      -- the oldest byte makes room
      obtain ⟨oldest, items, hitems⟩ := List.exists_cons_of_length_pos (l := q.items) (by omega)
      have hroom : q.pop.items.length < 2 ^ k - 1 := by
        show q.items.tail.length < 2 ^ k - 1
        rw [List.length_tail]
        omega
      obtain ⟨rb', hwrite, hrep⟩ := (h.pop hitems).2.write hroom data
      refine ⟨rb', ?_, BoundedFifo.push_of_full (by omega) hlen data ▸ hrep⟩
      rw [if_pos rfl, hwrite]
      rfl

theorem catRingbufferGet_represents (h : rb.Represents k q) :
    ∃ rb', catRingbufferGet rb = some
        ((if q.items.head?.isSome then CAT_EOK else CAT_ERROR, q.items.head?), rb') ∧
      rb'.Represents k q.pop := by
  unfold catRingbufferGet
  rw [h.isEmpty_iff]
  cases hitems : q.items with
  | nil =>
      have hpop : q.pop = q := BoundedFifo.ext (by rw [hitems]; exact congrArg List.tail hitems)
      refine ⟨rb, rfl, ?_⟩
      rw [hpop]
      exact h
  | cons data items =>
      obtain ⟨hget, hrep⟩ := h.pop hitems
      refine ⟨_, ?_, hrep⟩
      rw [if_pos (show (data :: items).isEmpty = false from rfl), hget]
      rfl

/-- Each byte that is dropped takes one from the sum. -/
theorem putMoreLoop_represents (h : rb.Represents k q) (hk : 1 ≤ k) (ret : BitVec 32)
    (pData : List (BitVec 8)) :
    ∃ rb', putMoreLoop ret rb pData = some (ret - BitVec.ofNat 32 (q.pushAll pData).1, rb') ∧
      rb'.Represents k (q.pushAll pData).2 := by
  induction pData generalizing rb q ret with
  | nil => exact ⟨rb, by simp [putMoreLoop, BoundedFifo.pushAll], h⟩
  | cons data rest ih =>
      obtain ⟨rb₁, hput, h₁⟩ := catRingbufferPut_represents h hk data
      obtain ⟨rb₂, hrest, h₂⟩ := ih h₁ (ret + if q.isFull then CAT_ERROR else CAT_EOK)
      refine ⟨rb₂, ?_, h₂⟩
      show (catRingbufferPut rb data).bind _ = _
      rw [hput, Option.bind_some, hrest]
      cases hfull : q.isFull with
      | false => simp [BoundedFifo.pushAll, hfull, CAT_EOK]
      | true =>
          have hsucc : ret + CAT_ERROR - BitVec.ofNat 32 ((q.push data).pushAll rest).1 =
              ret - BitVec.ofNat 32 (((q.push data).pushAll rest).1 + 1) := by
            simp only [CAT_ERROR, BitVec.ofNat_add]
            bv_omega
          simp [BoundedFifo.pushAll, hfull, hsucc]

/-- The sum of fewer than `2 ^ 32` errors is not 0. -/
theorem catRingbufferPutMore_represents (h : rb.Represents k q) (hk : 1 ≤ k) (size : BitVec 32)
    (pData : List.Vector (BitVec 8) size.toNat) :
    ∃ rb', catRingbufferPutMore rb size pData = some
        (if (q.pushAll pData.toList).1 = 0 then CAT_EOK else CAT_ERROR, rb') ∧
      rb'.Represents k (q.pushAll pData.toList).2 := by
  obtain ⟨rb', hloop, hrep⟩ := putMoreLoop_represents h hk 0 pData.toList
  refine ⟨rb', ?_, hrep⟩
  have hdropped : (q.pushAll pData.toList).1 < 2 ^ 32 := by
    have hle := q.pushAll_dropped_le pData.toList
    rw [List.Vector.toList_length] at hle
    exact lt_of_le_of_lt hle size.isLt
  unfold catRingbufferPutMore
  rw [hloop, Option.map_some]
  by_cases hzero : (q.pushAll pData.toList).1 = 0
  · rw [if_pos hzero, hzero]
    rfl
  · have hne : (0 : BitVec 32) - BitVec.ofNat 32 (q.pushAll pData.toList).1 ≠ 0 := by
      intro heq
      apply hzero
      bv_omega
    rw [if_neg hzero, if_pos hne]

end Operations

/-! ### Runs -/

/-- A fresh buffer is the empty queue. -/
theorem catRingbufferInit_represents {k : Nat} {bufferSize : BitVec 32}
    (hsize : bufferSize.toNat = 2 ^ k) {space : List (BitVec 8)}
    (hspace : space.length = bufferSize.toNat) :
    ∃ rb, catRingbufferInit space bufferSize = some rb ∧
      rb.Represents k (.empty : BoundedFifo (BitVec 8) (2 ^ k - 1)) := by
  have hlt : k < 32 := (Nat.pow_lt_pow_iff_right (by omega)).mp (hsize ▸ bufferSize.isLt)
  have hmask : (bufferSize - 1).toNat = 2 ^ k - 1 := by
    have hpos := Nat.two_pow_pos k
    rw [← hsize] at hpos ⊢
    bv_omega
  have hpow : isPowerOfTwo bufferSize = true := by
    refine decide_eq_true (BitVec.eq_of_toNat_eq ?_)
    rw [toNat_and_mask hmask, hsize, Nat.mod_self]
    rfl
  refine ⟨_, if_pos hpow, hspace.trans hsize, hlt.le, hmask, ?_, Nat.two_pow_pos k, .nil _ _⟩
  exact (Nat.zero_mod _).symm

theorem ringbufferStep_represents {rb : CatRingbuffer} {k : Nat}
    {q : BoundedFifo (BitVec 8) (2 ^ k - 1)} (h : rb.Represents k q) (hk : 1 ≤ k)
    (op : RingbufferOp) :
    ∃ res rb', ringbufferStep rb op = some (res, rb') ∧ res.Says (fifoStep q op).1 ∧
      rb'.Represents k (fifoStep q op).2 := by
  cases op with
  | put data =>
      obtain ⟨rb', hput, hrep⟩ := catRingbufferPut_represents h hk data
      refine ⟨_, rb', congrArg (Option.map _) hput, ?_, hrep⟩
      cases hfull : q.isFull <;>
        simp [RingbufferResult.Says, fifoStep, BoundedFifo.pushAll, hfull]
  | putMore size pData =>
      obtain ⟨rb', hput, hrep⟩ := catRingbufferPutMore_represents h hk size pData
      exact ⟨_, rb', congrArg (Option.map _) hput, rfl, hrep⟩
  | get =>
      obtain ⟨rb', hget, hrep⟩ := catRingbufferGet_represents h
      exact ⟨_, rb', congrArg (Option.map _) hget, rfl, hrep⟩
  | clear =>
      refine ⟨_, _, rfl, rfl, h.size, h.size_le, h.mask, ?_, Nat.two_pow_pos k, .nil _ _⟩
      exact (Nat.zero_mod _).symm

/-- Every run of the operations, from a fresh buffer of `2 ^ k` bytes on,
answers as a queue of `2 ^ k - 1` bytes that drops its oldest ones. -/
theorem ringbuffer_refines_fifo {k : Nat} (hk : 1 ≤ k) {bufferSize : BitVec 32}
    (hsize : bufferSize.toNat = 2 ^ k) {space : List (BitVec 8)}
    (hspace : space.length = bufferSize.toNat) (ops : List RingbufferOp) :
    ∃ rb results rb', catRingbufferInit space bufferSize = some rb ∧
      outputs ringbufferStep rb ops = some (results, rb') ∧
      List.Forall₂ RingbufferResult.Says results
        (answers fifoStep (.empty : BoundedFifo (BitVec 8) (2 ^ k - 1)) ops).1 ∧
      rb'.Represents k (answers fifoStep .empty ops).2 := by
  obtain ⟨rb, hinit, hrep⟩ := catRingbufferInit_represents hsize hspace
  obtain ⟨results, rb', hrun, hsays, hrep'⟩ :=
    Lib.outputs_sim (R := fun (rb : CatRingbuffer) q => rb.Represents k q)
      (fun s t op hst => ringbufferStep_represents hst hk op) hrep ops
  exact ⟨rb, results, rb', hinit, hrun, hsays, hrep'⟩

/-- Four bytes, and five that come. -/
theorem ringbuffer_refines_fifo_four :
    ∃ rb results rb', catRingbufferInit [0, 0, 0, 0] 4 = some rb ∧
      outputs ringbufferStep rb [.putMore 5 ⟨[1, 2, 3, 4, 5], rfl⟩, .get, .clear, .get] =
        some (results, rb') ∧
      List.Forall₂ RingbufferResult.Says results
        [.put 2, .get (some 3), .clear, .get none] ∧
      ∃ q : BoundedFifo (BitVec 8) (2 ^ 2 - 1), rb'.Represents 2 q ∧ q.items = [] := by
  obtain ⟨rb, results, rb', hinit, hrun, hsays, hrep⟩ :=
    ringbuffer_refines_fifo (k := 2) (by decide) (show (4 : BitVec 32).toNat = 2 ^ 2 by decide)
      (show [0, 0, 0, 0].length = (4 : BitVec 32).toNat from rfl)
      [.putMore 5 ⟨[1, 2, 3, 4, 5], rfl⟩, .get, .clear, .get]
  exact ⟨rb, results, rb', hinit, hrun, hsays, _, hrep, rfl⟩

end ACoral
