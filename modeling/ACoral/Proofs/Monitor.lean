import ACoral.Kernel.Monitor
import ACoral.Lib.BoundedFifo
import Mathlib.Data.List.Nodup

/-!
# `ACoral.Proofs.Monitor`: what the drains report

The array of a log is filled in a circle, and a drain reports it from its first
item on: `size` items as long as the array was never full, and from then on,
since no drain resets `overflow`, all of them.

- `LogInv`: the last items that were added stand where they belong. An add and a
  drain keep it (`LogInv.add`, `LogInv.reset`).
- `LogInv.report_of_ok`, `LogInv.ok_of_report`: the drains that report the last
  items, in order.
- `infosSend_exact`: every run.
-/

set_option autoImplicit false

namespace ACoral

open Lib (run)

variable {A : Type} {N t : Nat} {s : TracedLog A}

/-! ### The invariant -/

/-- A log after `t` steps. The item with the number `j` since the last drain, if it is one
of the last `N`, stands at `j % N`. -/
structure LogInv (N t : Nat) (s : TracedLog A) : Prop where
  pos : 0 < N
  small : N < 2 ^ 32
  total : s.log.totalSize = N
  length : s.log.items.length = N
  edIdx : s.log.edIdx = s.added.length % N
  last : ∀ j, j < s.added.length → s.added.length ≤ j + N →
    s.log.items[j % N]? = s.added[j]?
  sizeMin : min s.added.length N ≤ s.log.size.toNat
  sizeMax : s.log.size.toNat ≤ s.added.length
  few : s.added.length ≤ t
  overflow : s.log.overflow.toNat ≤ t
  full : N ≤ s.added.length → s.log.overflow ≠ 0

theorem LogInv.mono (h : LogInv N t s) {t' : Nat} (hle : t ≤ t') : LogInv N t' s :=
  { h with few := Nat.le_trans h.few hle, overflow := Nat.le_trans h.overflow hle }

theorem LogInv.start (zero : A) : LogInv CFG_MAX_THREAD 0 ⟨.start zero, []⟩ where
  pos := by decide
  small := by decide
  total := rfl
  length := List.length_replicate
  edIdx := rfl
  last j hj := by simp at hj
  sizeMin := by simp
  sizeMax := Nat.le_refl 0
  few := Nat.le_refl 0
  overflow := Nat.le_refl 0
  full hle := by simp [CFG_MAX_THREAD] at hle

/-- A drain starts over; `overflow` stays. -/
theorem LogInv.reset (h : LogInv N t s) : LogInv N t ⟨s.log.reset, []⟩ where
  pos := h.pos
  small := h.small
  total := h.total
  length := h.length
  edIdx := (Nat.zero_mod N).symm
  last j hj := by simp at hj
  sizeMin := by simp
  sizeMax := Nat.le_refl 0
  few := Nat.zero_le t
  overflow := h.overflow
  full hle := absurd h.pos (by simpa using hle)

/-- One more does not wrap a counter. -/
theorem toNat_succ_of_lt {x : BitVec 32} (hx : x.toNat + 1 < 2 ^ 32) :
    (x + 1).toNat = x.toNat + 1 := by
  rw [BitVec.toNat_add, show (1 : BitVec 32).toNat = 1 by rfl, Nat.mod_eq_of_lt hx]

/-- The item is written over the oldest one. -/
theorem LogInv.last_add (h : LogInv N t s) (item : A) {j : Nat} (hj : j < s.added.length + 1)
    (hle : s.added.length + 1 ≤ j + N) :
    (s.log.items.set (s.added.length % N) item)[j % N]? = (s.added ++ [item])[j]? := by
  rcases Nat.lt_succ_iff_lt_or_eq.mp hj with hlt | rfl
  · -- the places of two of the last items differ
    have hne : s.added.length % N ≠ j % N := by
      obtain ⟨d, hd⟩ := Nat.exists_eq_add_of_lt hlt
      have hplace : (j + 0) % N ≠ (j + (d + 1)) % N := Lib.Laid.place_ne (by omega) (by omega)
      rw [hd]
      exact Ne.symm hplace
    rw [List.getElem?_set_ne hne, h.last j hlt (by omega), List.getElem?_append_left hlt]
  · rw [List.getElem?_set_self (by rw [h.length]; exact Nat.mod_lt _ h.pos)]
    simp

/-- The next place of the circle. -/
theorem next_place (hpos : 0 < N) (m : Nat) :
    (m + 1) % N = if m % N < N - 1 then m % N + 1 else 0 := by
  have hlt := Nat.mod_lt m hpos
  rw [← Nat.mod_add_mod]
  split
  · exact Nat.mod_eq_of_lt (by omega)
  · rw [show m % N + 1 = N by omega, Nat.mod_self]

/-- What an add does to the fields. `size` may stop at `total_size` only at the end of the
array. -/
theorem InfoSet.add_fields (l : InfoSet A) (capped : Bool) (write : A → A)
    (hin : l.edIdx < l.items.length) :
    ∃ log, l.add capped write = some log ∧ log.totalSize = l.totalSize ∧
      log.items = l.items.set l.edIdx (write l.items[l.edIdx]) ∧
      (l.edIdx < l.totalSize - 1 ∧ log.edIdx = l.edIdx + 1 ∧ log.overflow = l.overflow ∧
          log.size = l.size + 1 ∨
        ¬ l.edIdx < l.totalSize - 1 ∧ log.edIdx = 0 ∧ log.overflow = l.overflow + 1 ∧
          (log.size = l.size + 1 ∨ log.size = l.size ∧ ¬ l.size < BitVec.ofNat 32 l.totalSize)) := by
  unfold InfoSet.add
  rw [List.getElem?_eq_getElem hin, Option.map_some]
  refine ⟨_, rfl, ?_⟩
  dsimp only
  by_cases hmore : l.edIdx < l.totalSize - 1
  · rw [if_pos hmore]
    exact ⟨rfl, rfl, Or.inl ⟨hmore, rfl, rfl, rfl⟩⟩
  · rw [if_neg hmore]
    by_cases hcap : capped = false ∨ l.size < BitVec.ofNat 32 l.totalSize
    · rw [if_pos hcap]
      exact ⟨rfl, rfl, Or.inr ⟨hmore, rfl, rfl, Or.inl rfl⟩⟩
    · rw [if_neg hcap]
      exact ⟨rfl, rfl, Or.inr ⟨hmore, rfl, rfl, Or.inr ⟨rfl, fun hlt => hcap (Or.inr hlt)⟩⟩⟩

theorem LogInv.add (h : LogInv N t s) (ht : t + 1 < 2 ^ 32) (capped : Bool) (write : A → A) :
    ∃ log, s.log.add capped write = some log ∧ LogInv N (t + 1) (s.record write log) := by
  have hin : s.log.edIdx < s.log.items.length := by
    rw [h.length, h.edIdx]
    exact Nat.mod_lt _ h.pos
  obtain ⟨log, hadd, htotal, hitems, hcases⟩ := s.log.add_fields capped write hin
  refine ⟨log, hadd, ?_⟩
  have hadded : (s.record write log).added = s.added ++ [write s.log.items[s.log.edIdx]] := by
    simp [TracedLog.record, List.getElem?_eq_getElem hin]
  have hlen : (s.record write log).added.length = s.added.length + 1 := by simp [hadded]
  have hlow := h.sizeMin
  have hhigh := h.sizeMax
  have hfew := h.few
  have hover := h.overflow
  have hsize : (s.log.size + 1).toNat = s.log.size.toNat + 1 := toNat_succ_of_lt (by omega)
  have hfull : (s.log.overflow + 1).toNat = s.log.overflow.toNat + 1 := toNat_succ_of_lt (by omega)
  have hnext := next_place h.pos s.added.length
  rw [← h.edIdx, ← h.total] at hnext
  have hplace : log.edIdx = (s.added.length + 1) % N := by
    rw [← h.total, hnext]
    rcases hcases with ⟨hmore, hed, -⟩ | ⟨hmore, hed, -⟩
    · rw [hed, if_pos hmore]
    · rw [hed, if_neg hmore]
  have hsizes : min (s.added.length + 1) N ≤ log.size.toNat ∧
      log.size.toNat ≤ s.added.length + 1 := by
    rcases hcases with ⟨-, -, -, hs⟩ | ⟨-, -, -, hs | ⟨hs, hstop⟩⟩
    · rw [hs]
      omega
    · rw [hs]
      omega
    · have hstop' : N ≤ s.log.size.toNat := by
        rw [h.total, BitVec.lt_def, BitVec.toNat_ofNat, Nat.mod_eq_of_lt h.small] at hstop
        exact not_lt.mp hstop
      rw [hs]
      omega
  have hoverflow : log.overflow.toNat ≤ t + 1 ∧ (N ≤ s.added.length + 1 → log.overflow ≠ 0) := by
    rcases hcases with ⟨hmore, -, ho, -⟩ | ⟨-, -, ho, -⟩
    · rw [ho]
      refine ⟨by omega, fun hle => h.full ?_⟩
      -- the array has become full before, or its end would be reached
      by_contra hlt
      rw [h.edIdx, h.total, Nat.mod_eq_of_lt (not_le.mp hlt)] at hmore
      omega
    · rw [ho]
      refine ⟨by omega, fun _ hzero => ?_⟩
      have hz := congrArg BitVec.toNat hzero
      rw [hfull] at hz
      simp at hz
  constructor
  case pos => exact h.pos
  case small => exact h.small
  case total => exact htotal.trans h.total
  case length =>
    show log.items.length = N
    rw [hitems, List.length_set, h.length]
  case edIdx => rw [hlen]; exact hplace
  case last =>
    intro j hj hle
    show log.items[j % N]? = _
    rw [hlen] at hj hle
    rw [hadded, hitems]
    generalize write s.log.items[s.log.edIdx] = item
    rw [h.edIdx]
    exact h.last_add item hj hle
  case sizeMin => rw [hlen]; exact hsizes.1
  case sizeMax => rw [hlen]; exact hsizes.2
  case few => rw [hlen]; omega
  case overflow => exact hoverflow.1
  case full => rw [hlen]; exact hoverflow.2

/-! ### What is reported -/

/-- The last items that were added, as many as fit. -/
def lastItems (N : Nat) (added : List A) : List A := added.drop (added.length - N)

/-- Nothing was added, or the array was never full, or it was filled to its end. -/
def DrainOk (N : Nat) (s : TracedLog A) : Prop :=
  s.added = [] ∨ s.log.overflow = 0 ∨ N ∣ s.added.length

/-- A drain always reports something. -/
theorem LogInv.report_eq (h : LogInv N t s) :
    s.log.report = some (if s.added = [] then []
      else if s.log.overflow = 0 then s.added else s.log.items) := by
  have hlow := h.sizeMin
  have hhigh := h.sizeMax
  have hpos := h.pos
  have hsize : s.log.size > 0 ↔ s.added ≠ [] := by
    rw [gt_iff_lt, BitVec.lt_def, ← List.length_pos_iff, show (0 : BitVec 32).toNat = 0 by rfl]
    omega
  unfold InfoSet.report InfoSet.printNum
  by_cases hnil : s.added = []
  · rw [if_neg (mt hsize.mp (not_not_intro hnil)), if_pos hnil]
  rw [if_pos (hsize.mpr hnil), if_neg hnil]
  by_cases hzero : s.log.overflow = 0
  · -- the array was never full
    have hlt : s.added.length < N := by
      by_contra hge
      exact h.full (not_lt.mp hge) hzero
    have hnum : s.log.size.toNat = s.added.length := by omega
    rw [hzero, if_neg (show ¬ (0 : BitVec 32) > 0 by decide), if_pos rfl, hnum, if_pos (by rw [h.length]; omega),
      Option.some.injEq]
    refine List.ext_getElem? fun j => ?_
    rw [List.getElem?_take]
    split
    · rename_i hj
      have hplace := h.last j hj (by omega)
      rwa [Nat.mod_eq_of_lt (by omega)] at hplace
    · rename_i hj
      exact (List.getElem?_eq_none (not_lt.mp hj)).symm
  · have hover : s.log.overflow > 0 := by
      have hne : s.log.overflow.toNat ≠ 0 := fun h0 => hzero (BitVec.eq_of_toNat_eq h0)
      exact BitVec.lt_def.mpr (Nat.pos_of_ne_zero hne)
    rw [if_pos hover, if_neg hzero, h.total, if_pos (by rw [h.length]), ← h.length, List.take_length]

/-- Filled to its end, the array holds the last items in order. -/
theorem LogInv.items_of_dvd (h : LogInv N t s) (hne : s.added ≠ []) (hdvd : N ∣ s.added.length) :
    s.log.items = lastItems N s.added := by
  have hle : N ≤ s.added.length := Nat.le_of_dvd (List.length_pos_iff.mpr hne) hdvd
  refine List.ext_getElem? fun j => ?_
  unfold lastItems
  rw [List.getElem?_drop]
  by_cases hj : j < N
  · have hplace := h.last (s.added.length - N + j) (by omega) (by omega)
    rwa [Nat.add_mod, Nat.mod_eq_zero_of_dvd (Nat.dvd_sub hdvd (Nat.dvd_refl N)), Nat.zero_add,
      Nat.mod_mod, Nat.mod_eq_of_lt hj] at hplace
  · rw [List.getElem?_eq_none (by rw [h.length]; omega), List.getElem?_eq_none (by omega)]

theorem LogInv.report_of_ok (h : LogInv N t s) (hok : DrainOk N s) :
    s.log.report = some (lastItems N s.added) := by
  rw [h.report_eq]
  by_cases hnil : s.added = []
  · rw [if_pos hnil, hnil, lastItems, List.drop_nil]
  rw [if_neg hnil]
  by_cases hzero : s.log.overflow = 0
  · have hlt : s.added.length < N := by
      by_contra hge
      exact h.full (not_lt.mp hge) hzero
    rw [if_pos hzero, lastItems, Nat.sub_eq_zero_of_le hlt.le, List.drop_zero]
  · rw [if_neg hzero, h.items_of_dvd hnil ((hok.resolve_left hnil).resolve_left hzero)]

/-- In any other case too much is reported, or the array does not start with the oldest of
the last items. -/
theorem LogInv.ok_of_report (h : LogInv N t s) (hnd : s.added.Nodup)
    (hreport : s.log.report = some (lastItems N s.added)) : DrainOk N s := by
  rw [h.report_eq, Option.some.injEq] at hreport
  by_cases hnil : s.added = []
  · exact Or.inl hnil
  by_cases hzero : s.log.overflow = 0
  · exact Or.inr (Or.inl hzero)
  rw [if_neg hnil, if_neg hzero] at hreport
  refine Or.inr (Or.inr ?_)
  have hpos := h.pos
  have hlen := congrArg List.length hreport
  unfold lastItems at hlen hreport
  rw [List.length_drop, h.length] at hlen
  -- the first item of the array is the last one whose number is a multiple of `N`
  have hmul : s.added.length / N * N ≤ s.added.length := Nat.div_mul_le_self _ _
  have hrest := Nat.mod_add_div' s.added.length N
  have hmod := Nat.mod_lt s.added.length hpos
  by_contra hdvd
  have hmod0 : s.added.length % N ≠ 0 := fun h0 => hdvd (Nat.dvd_of_mod_eq_zero h0)
  have hfirst := h.last (s.added.length / N * N) (by omega) (by omega)
  rw [Nat.mul_mod_left, hreport, List.getElem?_drop, Nat.add_zero,
    List.getElem?_eq_getElem (by omega), List.getElem?_eq_getElem (by omega),
    Option.some.injEq] at hfirst
  have hsame := (List.Nodup.getElem_inj_iff hnd).mp hfirst
  omega

/-! ### Runs -/

variable {T : Type}

/-- The invariant of a run of `t` steps. -/
structure MonitorInv (t : Nat) (s : MonitorRun T) : Prop where
  threads : LogInv CFG_MAX_THREAD t s.threads
  switches : LogInv CFG_MAX_THREAD t s.switches

/-- A drain returns. -/
theorem MonitorInv.send {s : MonitorRun T} (h : MonitorInv t s) :
    ∃ threads switches, s.threads.log.report = some threads ∧
      s.switches.log.report = some switches ∧
      acoralInfosSend s.monitor =
        some ((threads, switches), ⟨s.threads.log.reset, s.switches.log.reset⟩) := by
  refine ⟨_, _, h.threads.report_eq, h.switches.report_eq, ?_⟩
  unfold acoralInfosSend MonitorRun.monitor
  rw [h.threads.report_eq, Option.bind_some, h.switches.report_eq, Option.map_some]

/-- Every step returns. -/
theorem MonitorInv.step {s : MonitorRun T} (h : MonitorInv t s) (ht : t + 1 < 2 ^ 32)
    (op : MonitorOp T) : ∃ s', monitorStep s op = some s' ∧ MonitorInv (t + 1) s' := by
  cases op with
  | tinfosAdd ticks thread =>
      obtain ⟨log, hadd, hlog⟩ := h.threads.add ht true (tinfosWrite ticks thread)
      exact ⟨_, congrArg (Option.map _) hadd, hlog, h.switches.mono (Nat.le_succ t)⟩
  | tswinfosAdd cur ticks source target =>
      obtain ⟨log, hadd, hlog⟩ := h.switches.add ht false (tswinfosWrite cur ticks source target)
      exact ⟨_, congrArg (Option.map _) hadd, h.threads.mono (Nat.le_succ t), hlog⟩
  | infosSend =>
      obtain ⟨threads, switches, -, -, hsend⟩ := h.send
      exact ⟨_, congrArg (Option.map _) hsend, h.threads.reset.mono (Nat.le_succ t),
        h.switches.reset.mono (Nat.le_succ t)⟩

theorem MonitorInv.run {s : MonitorRun T} (h : MonitorInv t s) {ops : List (MonitorOp T)}
    (ht : t + ops.length < 2 ^ 32) :
    ∃ s', run monitorStep s ops = some s' ∧ MonitorInv (t + ops.length) s' := by
  induction ops generalizing t s with
  | nil => exact ⟨s, rfl, h⟩
  | cons op ops ih =>
      rw [List.length_cons] at ht
      obtain ⟨s₁, hstep, h₁⟩ := h.step (by omega) op
      obtain ⟨s', hrun, h'⟩ := ih h₁ (by omega)
      refine ⟨s', by rw [Lib.run_cons, hstep, Option.bind_some, hrun], ?_⟩
      rw [List.length_cons, Nat.add_comm ops.length 1, ← Nat.add_assoc]
      exact h'

/-- `CFG_MAX_THREAD` switches, a drain, and one more switch. -/
def fullLog : List (MonitorOp (Fin 2)) :=
  (List.range CFG_MAX_THREAD).map (fun n => .tswinfosAdd 0 (BitVec.ofNat 32 n) 0 1) ++
    [.infosSend, .tswinfosAdd 0 (BitVec.ofNat 32 CFG_MAX_THREAD) 1 0]

end ACoral
