import ACoral.Kernel.Ceiling
import ACoral.Proofs.Queue

/-!
# `ACoral.Proofs.Ceiling.Stack`: the system stacks as lists

`s.Stacked sys S` says that the resources on the stack of each system `k`
are `S k`, top first, and that the priority of the system is the ceiling of
its top. `sys` tells the system of each resource.

* `Stacked.push`: a resource that is on no stack enters at the top.
* `Stacked.pop`: a resource leaves its stack, from wherever it stands.
* `Stacked.pop_eq_none`: a resource that is on no stack cannot leave it; the
  list operation takes the lock of its node twice.
-/

set_option autoImplicit false

namespace ACoral

open Lib (Links)

/-! ### The head of a ring -/

section
variable {N : Type} [DecidableEq N]

/-- `acoral_list_add` of a fresh node behind the head of a ring. -/
theorem acoralListAdd_head {L : Links N} {h x : N} {l : List N} (hr : L.IsRing h l)
    (hx : x ∉ h :: l) : acoralListAdd L x h = some (L.link h x (l.headD h)) := by
  have hnext : L.next h = l.headD h := hr.next_head
  rw [← hnext]
  refine acoralListAdd_eq (fun he => hx (he ▸ List.mem_cons_self)) fun he => hx ?_
  rw [he, hnext]
  cases l <;> simp

/-- It writes to the nodes of the ring and to the new one only. -/
theorem link_head_frame {L : Links N} {h x : N} {l : List N} {y : N} (hy : y ∉ h :: l)
    (hyx : y ≠ x) :
    (L.link h x (l.headD h)).next y = L.next y ∧ (L.link h x (l.headD h)).prev y = L.prev y := by
  have hhead : y ≠ h := fun he => hy (he ▸ List.mem_cons_self)
  have hnext : y ≠ l.headD h := fun he => hy (he ▸ by cases l <;> simp)
  exact ⟨Links.link_next_of_ne L hhead hyx, Links.link_prev_of_ne L hnext hyx⟩

end

variable {R K T : Type} [DecidableEq R] [DecidableEq K] [DecidableEq T]

/-- The ceiling of the top, or `ACORAL_MAX_PRIO_NUM`. -/
def topPrio (s : CeilingState R K T) : List R → Nat
  | []     => ACORAL_MAX_PRIO_NUM
  | r :: _ => (s.res r).prioCeiling

/-- The stacks hold the resources `S`, and their nodes the ceilings. -/
structure CeilingState.StackRings (s : CeilingState R K T) (sys : R → K) (S : K → List R) :
    Prop where
  ring : ∀ k, s.stack.IsRing (.head k) ((S k).map .stacking)
  home : ∀ k, ∀ r ∈ S k, sys r = k
  free : ∀ r, r ∉ S (sys r) →
    s.stack.next (.stacking r) = .stacking r ∧ s.stack.prev (.stacking r) = .stacking r
  value : ∀ r, (s.res r).stackingValue = (s.res r).prioCeiling
  ceiling : ∀ r, (s.res r).prioCeiling < 256

/-- Moreover the systems have the priorities of their tops. -/
structure CeilingState.Stacked (s : CeilingState R K T) (sys : R → K) (S : K → List R) : Prop
    extends s.StackRings sys S where
  prio : ∀ k, s.sysPrio k = topPrio s (S k)

/-- Only the stacks and the priorities of the systems differ. -/
structure SameButStack (s s' : CeilingState R K T) : Prop where
  ipc : s'.ipc = s.ipc
  res : s'.res = s.res
  preemptType : s'.preemptType = s.preemptType
  data : s'.data = s.data

omit [DecidableEq T] in
theorem SameButStack.push {s s' : CeilingState R K T} {k : K} {r : R}
    (h : s.push k r = some s') : SameButStack s s' := by
  obtain ⟨stack, -, rfl⟩ := Option.map_eq_some_iff.mp h
  exact ⟨rfl, rfl, rfl, rfl⟩

omit [DecidableEq T] in
theorem SameButStack.pop {s s' : CeilingState R K T} {k : K} {r : R}
    (h : s.pop k r = some s') : SameButStack s s' := by
  obtain ⟨s₁, hdel, rfl⟩ := Option.map_eq_some_iff.mp h
  obtain ⟨stack, -, rfl⟩ := Option.map_eq_some_iff.mp hdel
  exact ⟨rfl, rfl, rfl, rfl⟩

namespace CeilingState.StackRings

variable {s s' : CeilingState R K T} {sys : R → K} {S : K → List R}

omit [DecidableEq R] [DecidableEq K] [DecidableEq T] in
/-- A stack does not hold a resource twice. -/
theorem nodup (h : s.StackRings sys S) (k : K) : (S k).Nodup :=
  ((List.nodup_cons.mp (h.ring k).nodup).2).of_map _

omit [DecidableEq R] [DecidableEq K] [DecidableEq T] in
/-- The top of the stack. -/
theorem stackTop (h : s.StackRings sys S) (k : K) : s.stackTop k = (S k).head? := by
  unfold CeilingState.stackTop
  rw [(h.ring k).next_head]
  cases S k <;> rfl

omit [DecidableEq R] [DecidableEq K] [DecidableEq T] in
/-- The value that the node at the top carries, cut to an `acoral_u8`. -/
theorem topValue (h : s.StackRings sys S) (k : K) :
    (s.stackTopValue k % 256).toNat = topPrio s (S k) := by
  unfold CeilingState.stackTopValue
  rw [(h.ring k).next_head]
  cases hS : S k with
  | nil => rfl
  | cons r l =>
      have hlt := h.ceiling r
      show ((s.res r).stackingValue % 256).toNat = (s.res r).prioCeiling
      rw [h.value r]
      omega

omit [DecidableEq R] [DecidableEq K] [DecidableEq T] in
/-- A resource that is not on a stack has no node in its ring. -/
theorem notMem_ring {k : K} {r : R} (hr : r ∉ S k) :
    (.stacking r : StackNode R K) ∉ .head k :: (S k).map .stacking := by
  simp [hr]

omit [DecidableEq R] [DecidableEq K] [DecidableEq T] in
/-- The rings have no node in common. -/
theorem notMem_other (h : s.StackRings sys S) {j k : K} (hne : j ≠ k) {y : StackNode R K}
    (hy : y ∈ .head j :: (S j).map .stacking) : y ∉ .head k :: (S k).map .stacking := by
  rcases List.mem_cons.mp hy with rfl | hy
  · simp [hne]
  · obtain ⟨q, hq, rfl⟩ := List.mem_map.mp hy
    exact notMem_ring fun hq' => hne ((h.home j q hq).symm.trans (h.home k q hq'))

omit [DecidableEq T] in
/-- A resource that is on no stack enters its own at the top. -/
theorem lifoQueueAdd (h : s.StackRings sys S) {r : R} (hr : r ∉ S (sys r))
    (hadd : s.lifoQueueAdd (sys r) r = some s') :
    s'.StackRings sys (Function.update S (sys r) (r :: S (sys r))) ∧
      s' = { s with stack := s'.stack } := by
  have hring := h.ring (sys r)
  have hfresh := notMem_ring hr
  obtain ⟨stack, hstack, rfl⟩ := Option.map_eq_some_iff.mp hadd
  obtain rfl : s.stack.link (.head (sys r)) (.stacking r) _ = stack :=
    Option.some.inj ((acoralListAdd_head hring hfresh).symm.trans hstack)
  refine ⟨⟨fun k => ?_, fun k q hq => ?_, fun q hq => ?_, h.value, h.ceiling⟩, rfl⟩
  · by_cases hk : k = sys r
    · rw [hk, Function.update_self]
      exact Links.IsRing.insert
        (show s.stack.IsRing (.head (sys r)) ([] ++ (S (sys r)).map .stacking) from hring) hfresh
    · rw [Function.update_of_ne hk]
      have hframe : ∀ y ∈ (.head k : StackNode R K) :: (S k).map .stacking,
          _ = s.stack.next y ∧ _ = s.stack.prev y := fun y hy =>
        link_head_frame (x := .stacking r) (h.notMem_other hk hy) fun he => by
          rw [he] at hy
          have hq : r ∈ S k := by simpa using hy
          exact hk (h.home k r hq).symm
      exact (h.ring k).congr (fun y hy => (hframe y hy).1) fun y hy => (hframe y hy).2
  · by_cases hk : k = sys r
    · rw [hk, Function.update_self] at hq
      rcases List.mem_cons.mp hq with rfl | hq
      · exact hk.symm
      · rw [hk]
        exact h.home _ q hq
    · rw [Function.update_of_ne hk] at hq
      exact h.home k q hq
  · have hqr : q ≠ r := fun he => by
      rw [he, Function.update_self] at hq
      exact hq List.mem_cons_self
    have hold : q ∉ S (sys q) := fun hm => by
      by_cases hk : sys q = sys r
      · rw [hk, Function.update_self] at hq
        exact hq (List.mem_cons_of_mem _ (hk ▸ hm))
      · rw [Function.update_of_ne hk] at hq
        exact hq hm
    have hnot : (.stacking q : StackNode R K) ∉ .head (sys r) :: (S (sys r)).map .stacking :=
      notMem_ring fun hm => hold (h.home _ q hm ▸ hm)
    have hne : (.stacking q : StackNode R K) ≠ .stacking r := by simpa using hqr
    have hframe := link_head_frame (L := s.stack) hnot hne
    exact ⟨hframe.1.trans (h.free q hold).1, hframe.2.trans (h.free q hold).2⟩

omit [DecidableEq T] in
/-- A resource leaves its stack. -/
theorem lifoQueueDel (h : s.StackRings sys S) {r : R} (hr : r ∈ S (sys r))
    (hdel : s.lifoQueueDel r = some s') :
    s'.StackRings sys (Function.update S (sys r) ((S (sys r)).erase r)) ∧
      s' = { s with stack := s'.stack } := by
  obtain ⟨l₁, l₂, hsplit⟩ := List.append_of_mem hr
  have herase : (S (sys r)).erase r = l₁ ++ l₂ := by
    have hnodup := h.nodup (sys r)
    rw [hsplit] at hnodup ⊢
    have hnot : r ∉ l₁ := fun hm => (List.nodup_append.mp hnodup).2.2 r hm r (by simp) rfl
    rw [List.erase_append_right _ hnot, List.erase_cons_head]
  have hring := h.ring (sys r)
  rw [hsplit, List.map_append, List.map_cons] at hring
  obtain ⟨stack, hstack, rfl⟩ := Option.map_eq_some_iff.mp hdel
  have hunlink := Option.some.inj ((acoralListDel_mem hring).symm.trans hstack)
  have hmem : (.stacking r : StackNode R K) ∈ (S (sys r)).map .stacking := List.mem_map_of_mem hr
  -- the other rings and the nodes of no ring stay as they are
  have hframe : ∀ y : StackNode R K, y ∉ .head (sys r) :: (S (sys r)).map .stacking →
      stack.next y = s.stack.next y ∧ stack.prev y = s.stack.prev y := fun y hy =>
    acoralPrioQueueDel_frame (h.ring (sys r)) hmem hstack hy
  refine ⟨⟨fun k => ?_, fun k q hq => ?_, fun q hq => ?_, h.value, h.ceiling⟩, rfl⟩
  · by_cases hk : k = sys r
    · rw [hk, Function.update_self, herase, List.map_append, ← hunlink]
      exact hring.remove
    · rw [Function.update_of_ne hk]
      exact (h.ring k).congr (fun y hy => (hframe y (h.notMem_other hk hy)).1)
        fun y hy => (hframe y (h.notMem_other hk hy)).2
  · by_cases hk : k = sys r
    · rw [hk, Function.update_self] at hq
      rw [hk]
      exact h.home _ q (List.mem_of_mem_erase hq)
    · rw [Function.update_of_ne hk] at hq
      exact h.home k q hq
  · by_cases hqr : q = r
    · rw [hqr, ← hunlink]
      have hself : (s.stack.unlink (.stacking r)).IsRing (.stacking r) ([] ++ []) :=
        s.stack.unlink_self (.stacking r)
      exact ⟨hself.next_head, hself.prev_headD⟩
    · have hold : q ∉ S (sys q) := fun hm => by
        by_cases hk : sys q = sys r
        · rw [hk, Function.update_self] at hq
          exact hq ((List.mem_erase_of_ne hqr).mpr (hk ▸ hm))
        · rw [Function.update_of_ne hk] at hq
          exact hq hm
      have hf := hframe _ (notMem_ring fun hm => hold (h.home _ q hm ▸ hm))
      exact ⟨hf.1.trans (h.free q hold).1, hf.2.trans (h.free q hold).2⟩

end CeilingState.StackRings

namespace CeilingState.Stacked

variable {s s' : CeilingState R K T} {sys : R → K} {S : K → List R}

omit [DecidableEq R] [DecidableEq K] [DecidableEq T] in
/-- Only the stacks, the priorities of the systems and the ceilings matter. -/
theorem congr (h : s.Stacked sys S) (hstack : s'.stack = s.stack) (hprio : s'.sysPrio = s.sysPrio)
    (hres : ∀ r, (s'.res r).prioCeiling = (s.res r).prioCeiling ∧
      (s'.res r).stackingValue = (s.res r).stackingValue) : s'.Stacked sys S := by
  refine ⟨⟨fun k => ?_, h.home, fun r => ?_, fun r => ?_, fun r => ?_⟩, fun k => ?_⟩
  · rw [hstack]
    exact h.ring k
  · rw [hstack]
    exact h.free r
  · rw [(hres r).1, (hres r).2]
    exact h.value r
  · rw [(hres r).1]
    exact h.ceiling r
  · rw [hprio, h.prio k]
    cases S k with
    | nil => rfl
    | cons r l => exact (hres r).1.symm

omit [DecidableEq T] in
/-- A resource that is on no stack enters its own at the top. -/
theorem push (h : s.Stacked sys S) {r : R} (hr : r ∉ S (sys r))
    (hpush : s.push (sys r) r = some s') :
    s'.Stacked sys (Function.update S (sys r) (r :: S (sys r))) := by
  have hset : (s.setSysPrio (sys r) (s.res r).prioCeiling).StackRings sys S :=
    ⟨h.ring, h.home, h.free, h.value, h.ceiling⟩
  obtain ⟨hrings, heq⟩ := hset.lifoQueueAdd hr hpush
  refine ⟨hrings, fun k => ?_⟩
  rw [heq]
  show Function.update s.sysPrio (sys r) _ k = _
  by_cases hk : k = sys r
  · rw [hk, Function.update_self, Function.update_self]
    rfl
  · rw [Function.update_of_ne hk, Function.update_of_ne hk, h.prio k]
    cases S k <;> rfl

omit [DecidableEq T] in
/-- A resource leaves its stack, and the system gets the ceiling of the new
top. -/
theorem pop (h : s.Stacked sys S) {r : R} (hr : r ∈ S (sys r)) (hpop : s.pop (sys r) r = some s') :
    s'.Stacked sys (Function.update S (sys r) ((S (sys r)).erase r)) := by
  obtain ⟨s₁, hdel, rfl⟩ := Option.map_eq_some_iff.mp hpop
  obtain ⟨hrings, heq⟩ := h.toStackRings.lifoQueueDel hr hdel
  have htop := hrings.topValue (sys r)
  refine ⟨⟨hrings.ring, hrings.home, hrings.free, hrings.value, hrings.ceiling⟩, fun k => ?_⟩
  rw [htop]
  show Function.update s₁.sysPrio (sys r) _ k = _
  by_cases hk : k = sys r
  · rw [hk, Function.update_self, Function.update_self]
    cases (S (sys r)).erase r <;> rfl
  · rw [Function.update_of_ne hk, Function.update_of_ne hk, heq]
    show s.sysPrio k = _
    rw [h.prio k]
    cases S k <;> rfl

omit [DecidableEq T] in
/-- A resource that is on no stack cannot leave it. -/
theorem pop_eq_none (h : s.Stacked sys S) {r : R} (hr : r ∉ S (sys r)) (k : K) :
    s.pop k r = none := by
  unfold CeilingState.pop CeilingState.lifoQueueDel
  rw [acoralListDel_self (h.free r hr).2]
  rfl

omit [DecidableEq R] [DecidableEq K] [DecidableEq T] in
/-- Before the first step the stacks are empty. -/
theorem start (sched : Sched T) (pendingValue : T → Int) (preemptType : T → PreemptType)
    (data : T → Option ThreadData) {create : R → CeilingType × Nat × Nat} (sys : R → K)
    (hceiling : ∀ r, (create r).2.2 < 256) :
    (CeilingState.start sched pendingValue preemptType data create).Stacked sys fun _ => [] where
  ring _ := Links.isRing_nil rfl rfl
  home _ _ hr := absurd hr List.not_mem_nil
  free _ _ := ⟨rfl, rfl⟩
  value _ := rfl
  ceiling := hceiling
  prio _ := rfl

end CeilingState.Stacked

end ACoral
