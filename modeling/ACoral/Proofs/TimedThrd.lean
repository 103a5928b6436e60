import ACoral.Kernel.TimedThrd
import ACoral.Lib.GuardedRun
import ACoral.Lib.Timetable
import ACoral.Proofs.PeriodThrd

/-!
# `ACoral.Proofs.TimedThrd`: timed threads keep to their tables

A delay of a timed thread is the difference of two entries of its table, so
that an entry that comes at the same tick as the one before it is a delay of
nothing. `acoral_tick_queue_add` then puts the thread in front, where it takes
up the tick of everybody behind it. `timed_exact` says what holds when no delay
is nothing: each entry is delivered in every hyperperiod at its tick. The
invariant is that a thread expires at the next instant of its timetable.
-/

set_option autoImplicit false

namespace ACoral

open Lib (keys expiry Ordered run guarded Timetable)

variable {T : Type} [DecidableEq T]

/-! ### Tables -/

/-- The table in ticks. -/
def tableTicks (startTime : List (BitVec 32)) : List Nat :=
  startTime.map fun start => (timeToTicks start).toNat

/-- The last entry of the table in ticks. -/
def hyperPeriod (startTime : List (BitVec 32)) : Nat := (tableTicks startTime).getLastD 0

/-- A table of the right size that goes up strictly, from above zero. The counts
leave room for one more. -/
structure TimedPolicyData.Steady (policyData : TimedPolicyData) : Prop where
  size : policyData.startTime.length =
    policyData.frequency.toNat * (policyData.sectionNum.toNat + 1)
  runs : 0 < policyData.frequency.toNat
  frequency : policyData.frequency.toNat < 255
  sectionNum : policyData.sectionNum.toNat < 255
  sorted : (tableTicks policyData.startTime).Pairwise (· < ·)
  pos : ∀ e ∈ tableTicks policyData.startTime, 0 < e

/-- The data of a thread, its timetable, and its place in it. -/
structure Placed (data : TimedPrivateData) (tab : Timetable) (k : Nat) : Prop where
  entries : tab.entries = tableTicks data.startTime
  size : tab.size = data.frequency.toNat * (data.sectionNum.toNat + 1)
  frequency : data.frequency.toNat < 255
  sectionNum : data.sectionNum.toNat < 255
  sectn : 1 ≤ data.sectn.toNat ∧ data.sectn.toNat ≤ data.sectionNum.toNat + 1
  runNum : 1 ≤ data.runNum.toNat ∧ data.runNum.toNat ≤ data.frequency.toNat
  place : (data.runNum.toNat - 1) * (data.sectionNum.toNat + 1) + (data.sectn.toNat - 1) = k

theorem toNat_setWidth_sub_one {b : BitVec 8} (hb : 1 ≤ b.toNat) :
    (b.setWidth 32 - 1).toNat = b.toNat - 1 := by
  have hlt := b.isLt
  have hwidth : (b.setWidth 32).toNat = b.toNat := by
    rw [BitVec.toNat_setWidth, Nat.mod_eq_of_lt (by omega)]
  rw [BitVec.toNat_sub_of_le, hwidth]
  · rfl
  · rw [BitVec.le_def, hwidth]
    exact hb

theorem toNat_add_one {b : BitVec 8} (hb : b.toNat < 255) : (b + 1).toNat = b.toNat + 1 := by
  rw [BitVec.toNat_add]
  exact Nat.mod_eq_of_lt (by show b.toNat + 1 < 256; omega)

theorem toNat_setWidth_add_one (b : BitVec 8) : (b.setWidth 32 + 1).toNat = b.toNat + 1 := by
  have hlt := b.isLt
  rw [BitVec.toNat_add, BitVec.toNat_setWidth, Nat.mod_eq_of_lt (a := b.toNat) (by omega)]
  exact Nat.mod_eq_of_lt (by show b.toNat + 1 < _; omega)

/-- The counts of a thread: the run, and the section or the end of the run. They leave
room for one more. -/
structure Counts (data : TimedPrivateData) : Prop where
  frequency : data.frequency.toNat < 255
  sectionNum : data.sectionNum.toNat < 255
  sectn : 1 ≤ data.sectn.toNat ∧ data.sectn.toNat ≤ data.sectionNum.toNat + 1
  runNum : 1 ≤ data.runNum.toNat ∧ data.runNum.toNat ≤ data.frequency.toNat

namespace Counts

variable {data : TimedPrivateData}

theorem place_lt (h : Counts data) :
    (data.runNum.toNat - 1) * (data.sectionNum.toNat + 1) + (data.sectn.toNat - 1) <
      data.frequency.toNat * (data.sectionNum.toNat + 1) := by
  obtain ⟨hs1, hs2⟩ := h.sectn
  obtain ⟨hr1, hr2⟩ := h.runNum
  have hrun : (data.runNum.toNat - 1 + 1) * (data.sectionNum.toNat + 1) ≤
      data.frequency.toNat * (data.sectionNum.toNat + 1) := Nat.mul_le_mul_right _ (by omega)
  rw [Nat.add_mul, Nat.one_mul] at hrun
  omega

/-- Nothing wraps in `timed_start_time_reload`. -/
theorem offset_eq (h : Counts data) : data.offset.toNat =
    (data.runNum.toNat - 1) * (data.sectionNum.toNat + 1) + (data.sectn.toNat - 1) := by
  have hlt := h.place_lt
  have hsmall : data.frequency.toNat * (data.sectionNum.toNat + 1) ≤ 254 * 255 := by
    have hf := h.frequency
    have hs := h.sectionNum
    exact Nat.mul_le_mul (by omega) (by omega)
  rw [TimedPrivateData.offset, BitVec.toNat_add, BitVec.toNat_mul,
    toNat_setWidth_sub_one h.runNum.1, toNat_setWidth_sub_one h.sectn.1,
    toNat_setWidth_add_one, Nat.mod_eq_of_lt (a := _ * _) (by omega)]
  exact Nat.mod_eq_of_lt (by omega)

theorem offset_lt (h : Counts data) :
    data.offset.toNat < data.frequency.toNat * (data.sectionNum.toNat + 1) :=
  h.offset_eq ▸ h.place_lt

/-- A section is over. -/
theorem nextSection (h : Counts data) (hsect : data.sectn ≤ data.sectionNum) :
    Counts { data with sectn := data.sectn + 1 } := by
  have hle : data.sectn.toNat ≤ data.sectionNum.toNat := hsect
  have hn := h.sectionNum
  refine ⟨h.frequency, hn, ?_, h.runNum⟩
  show 1 ≤ (data.sectn + 1).toNat ∧ (data.sectn + 1).toNat ≤ _
  rw [toNat_add_one (by omega)]
  exact ⟨by omega, Nat.succ_le_succ hle⟩

/-- A run is over. -/
theorem nextRun (h : Counts data) :
    Counts { data with
      runNum := if data.runNum + 1 > data.frequency then 1 else data.runNum + 1
      sectn := 1 } := by
  obtain ⟨hr1, hr2⟩ := h.runNum
  have hf := h.frequency
  refine ⟨hf, h.sectionNum, ⟨Nat.le_refl _, Nat.succ_le_succ (Nat.zero_le _)⟩, ?_⟩
  show 1 ≤ (if _ then (1 : BitVec 8) else _).toNat ∧ (if _ then (1 : BitVec 8) else _).toNat ≤ _
  by_cases hover : data.runNum + 1 > data.frequency
  · rw [if_pos hover]
    exact ⟨Nat.le_refl _, hr1.trans hr2⟩
  · rw [if_neg hover]
    have hle : (data.runNum + 1).toNat ≤ data.frequency.toNat := BitVec.not_lt.mp hover
    rw [toNat_add_one (by omega)] at hle ⊢
    exact ⟨by omega, hle⟩

end Counts

/-- The data after the thread was due. -/
def TimedPrivateData.next (data : TimedPrivateData) : TimedPrivateData :=
  if data.sectn ≤ data.sectionNum then { data with sectn := data.sectn + 1 }
  else
    { data with
      runNum := if data.runNum + 1 > data.frequency then 1 else data.runNum + 1
      sectn := 1 }

/-- The time that the next delay is counted from. -/
def TimedPrivateData.nextTime (data : TimedPrivateData) (time : BitVec 32) : BitVec 32 :=
  if data.sectn ≤ data.sectionNum then time
  else if data.runNum + 1 > data.frequency then 0 else time

namespace Placed

variable {data : TimedPrivateData} {tab : Timetable} {k : Nat}

theorem counts (h : Placed data tab k) : Counts data :=
  ⟨h.frequency, h.sectionNum, h.sectn, h.runNum⟩

/-- The place is the one that `timed_start_time_reload` computes. -/
theorem offset (h : Placed data tab k) : data.offset.toNat = k := h.counts.offset_eq.trans h.place

theorem lt_size (h : Placed data tab k) : k < tab.size := by
  rw [h.size, ← h.offset]
  exact h.counts.offset_lt

/-- Within a hyperperiod the next place is one further, and the time stays. -/
theorem next_cases (h : Placed data tab k) (time : BitVec 32) :
    (k + 1 < tab.size ∧ Placed data.next tab (k + 1) ∧ data.nextTime time = time) ∨
      (k + 1 = tab.size ∧ Placed data.next tab 0 ∧ data.nextTime time = 0) := by
  obtain ⟨hs1, hs2⟩ := h.sectn
  obtain ⟨hr1, hr2⟩ := h.runNum
  have hf := h.frequency
  have hn := h.sectionNum
  have hplace := h.place
  by_cases hsect : data.sectn ≤ data.sectionNum
  · -- the thread is in front of a section
    have hle : data.sectn.toNat ≤ data.sectionNum.toNat := hsect
    have hnext : data.next = { data with sectn := data.sectn + 1 } := if_pos hsect
    have hsucc : (data.sectn + 1).toNat = data.sectn.toNat + 1 := toNat_add_one (by omega)
    have hplaced : Placed data.next tab (k + 1) := by
      rw [hnext]
      refine ⟨h.entries, h.size, hf, hn, (h.counts.nextSection hsect).sectn, h.runNum, ?_⟩
      show (data.runNum.toNat - 1) * (data.sectionNum.toNat + 1) +
        ((data.sectn + 1).toNat - 1) = k + 1
      rw [hsucc]
      omega
    exact Or.inl ⟨hplaced.lt_size, hplaced, if_pos hsect⟩
  · -- the run is over
    have hlast : data.sectn.toNat = data.sectionNum.toNat + 1 := by
      have hlt : data.sectionNum.toNat < data.sectn.toNat := BitVec.not_le.mp hsect
      omega
    have hsucc : (data.runNum + 1).toNat = data.runNum.toNat + 1 := toNat_add_one (by omega)
    have hrun : k + 1 = data.runNum.toNat * (data.sectionNum.toNat + 1) := by
      have hmul : (data.runNum.toNat - 1 + 1) * (data.sectionNum.toNat + 1) =
          (data.runNum.toNat - 1) * (data.sectionNum.toNat + 1) + (data.sectionNum.toNat + 1) := by
        rw [Nat.add_mul, Nat.one_mul]
      rw [Nat.sub_add_cancel hr1] at hmul
      omega
    by_cases hover : data.runNum + 1 > data.frequency
    · have hgt : data.frequency.toNat < (data.runNum + 1).toNat := hover
      have hnext : data.next = { data with runNum := 1, sectn := 1 } := by
        rw [TimedPrivateData.next, if_neg hsect, if_pos hover]
      refine Or.inr ⟨?_, ?_, ?_⟩
      · rw [hrun, h.size, show data.runNum.toNat = data.frequency.toNat by omega]
      · rw [hnext]
        exact ⟨h.entries, h.size, hf, hn, ⟨Nat.le_refl _, Nat.succ_le_succ (Nat.zero_le _)⟩,
          ⟨Nat.le_refl _, hr1.trans hr2⟩, by simp⟩
      · rw [TimedPrivateData.nextTime, if_neg hsect, if_pos hover]
    · have hle : (data.runNum + 1).toNat ≤ data.frequency.toNat := BitVec.not_lt.mp hover
      have hnext : data.next = { data with runNum := data.runNum + 1, sectn := 1 } := by
        rw [TimedPrivateData.next, if_neg hsect, if_neg hover]
      have hplaced : Placed data.next tab (k + 1) := by
        rw [hnext]
        refine ⟨h.entries, h.size, hf, hn, ⟨Nat.le_refl _, Nat.succ_le_succ (Nat.zero_le _)⟩, ?_, ?_⟩
        · show 1 ≤ (data.runNum + 1).toNat ∧ _
          rw [hsucc]
          exact ⟨by omega, hsucc ▸ hle⟩
        · show ((data.runNum + 1).toNat - 1) * _ + (1 - 1) = k + 1
          rw [hsucc, hrun]
          rfl
      refine Or.inl ⟨hplaced.lt_size, hplaced, ?_⟩
      rw [TimedPrivateData.nextTime, if_neg hsect, if_neg hover]

/-- From entry number `m` to the next, whose delay is the wait between the two. -/
theorem next_instant {m : Nat} (h : Placed data tab (m % tab.size)) {time : BitVec 32}
    (htime : time.toNat = tab.entry (m % tab.size)) :
    Placed data.next tab ((m + 1) % tab.size) ∧
      (data.nextTime time).toNat ≤ tab.entry ((m + 1) % tab.size) ∧
      (tab.entry ((m + 1) % tab.size) : Int) - ((data.nextTime time).toNat : Int) =
        (tab.instant (m + 1) : Int) - (tab.instant m : Int) := by
  rcases h.next_cases time with ⟨hless, hnext, hsame⟩ | ⟨hlast, hnext, hzero⟩
  · have hmod : (m + 1) % tab.size = m % tab.size + 1 := by
      rw [← Nat.mod_add_mod, Nat.mod_eq_of_lt hless]
    have hlt : tab.entry (m % tab.size) < tab.entry (m % tab.size + 1) :=
      Timetable.entry_lt (Nat.lt_succ_self _) hless
    rw [hmod, hsame, htime, Timetable.instant_succ_of_lt hless]
    refine ⟨hnext, hlt.le, ?_⟩
    rw [Timetable.instant, Nat.cast_add, Nat.cast_add]
    omega
  · have hmod : (m + 1) % tab.size = 0 := by
      rw [← Nat.mod_add_mod, hlast, Nat.mod_self]
    rw [hmod, hzero, Timetable.instant_succ_of_last hlast]
    refine ⟨hnext, Nat.zero_le _, ?_⟩
    rw [Nat.cast_add]
    show (tab.entry 0 : Int) - ((0 : Nat) : Int) = _
    omega

/-- `timed_start_time_reload` reads the entry of the place. -/
theorem reload (h : Placed data tab k) {time : BitVec 32} (hle : time.toNat ≤ tab.entry k) :
    ∃ time', timedStartTimeReload data time =
        some (time', ((tab.entry k : Int) - (time.toNat : Int))) ∧
      time'.toNat = tab.entry k := by
  have hk := h.lt_size
  have hlen : k < data.startTime.length := by
    have hsize : tab.size = (tableTicks data.startTime).length := congrArg List.length h.entries
    rw [tableTicks, List.length_map] at hsize
    omega
  have hget : data.startTime[k]? = some data.startTime[k] := List.getElem?_eq_getElem hlen
  have hentry : (timeToTicks data.startTime[k]).toNat = tab.entry k := by
    rw [Timetable.entry, h.entries, tableTicks, List.getD_eq_getElem?_getD, List.getElem?_map, hget]
    rfl
  have hsub : (timeToTicks data.startTime[k] - time).toInt = (tab.entry k : Int) - time.toNat := by
    have hlt := timeToTicks_lt data.startTime[k]
    have hdiff : (timeToTicks data.startTime[k] - time).toNat = tab.entry k - time.toNat := by
      rw [BitVec.toNat_sub_of_le (BitVec.le_def.mpr (hentry ▸ hle)), hentry]
    rw [BitVec.toInt_eq_toNat_of_lt (by omega), hdiff, Int.ofNat_sub hle]
  refine ⟨timeToTicks data.startTime[k], ?_, hentry⟩
  rw [timedStartTimeReload, h.offset, hget, Option.map_some, hsub]

end Placed

/-! ### One thread that is due -/

/-- The thread is not running: it waits in front of a section, or its run is
over. -/
structure OnTime (x : TimedState T) (cpu : Nat) (thread : T) : Prop where
  stopped : x.runningThread cpu ≠ thread
  waits : (x.ipc thread).isSome ↔
    (x.privateData thread).sectn ≤ (x.privateData thread).sectionNum

/-- An event that delivers a place of the table. -/
def TimedEvent.Delivers (e : TimedEvent T) (thread : T) (k : Nat) : Prop :=
  e = .post thread k ∨ e = .restart thread k

/-- What the deal does not change. -/
structure SameTimed (d d' : TimedDeal T) : Prop where
  running : d'.state.runningThread = d.state.runningThread
  queue : d'.state.timedTimeQueue = d.state.timedTimeQueue
  created : d'.state.created = d.state.created
  now : d'.state.now = d.state.now
  log : d'.state.log = d.state.log
  error : d'.timedError = d.timedError

omit [DecidableEq T] in
theorem SameTimed.refl (d : TimedDeal T) : SameTimed d d := ⟨rfl, rfl, rfl, rfl, rfl, rfl⟩

omit [DecidableEq T] in
theorem SameTimed.trans {d d' d'' : TimedDeal T} (h : SameTimed d d') (h' : SameTimed d' d'') :
    SameTimed d d'' :=
  ⟨h'.running.trans h.running, h'.queue.trans h.queue, h'.created.trans h.created,
    h'.now.trans h.now, h'.log.trans h.log, h'.error.trans h.error⟩

/-- What the deal does to the thread that is due, and to the others. -/
structure Moved (thread : T) (time : BitVec 32) (d d' : TimedDeal T) : Prop where
  same : SameTimed d d'
  privateData : d'.state.privateData =
    Function.update d.state.privateData thread (d.state.privateData thread).next
  time : d'.state.time = Function.update d.state.time thread time
  ipc : ∀ u, u ≠ thread → d'.state.ipc u = d.state.ipc u
  events : ∃ e : TimedEvent T, d'.events = d.events ++ [e] ∧
    e.Delivers thread (d.state.privateData thread).offset.toNat

section Due
variable {d : TimedDeal T} {thread : T}

theorem timedPost_moved
    (hsect : (d.state.privateData thread).sectn ≤ (d.state.privateData thread).sectionNum) :
    Moved thread ((d.state.privateData thread).nextTime (d.state.time thread)) d
      (timedPost d thread) := by
  have hdata : (d.state.privateData thread).next =
      { d.state.privateData thread with sectn := (d.state.privateData thread).sectn + 1 } :=
    if_pos hsect
  constructor
  case same => exact ⟨rfl, rfl, rfl, rfl, rfl, rfl⟩
  case privateData => rw [hdata]; rfl
  case time =>
    rw [TimedPrivateData.nextTime, if_pos hsect, Function.update_eq_self]
    rfl
  case ipc =>
    intro u hu
    show (if _ then Function.update d.state.ipc thread none else d.state.ipc) u = _
    split
    · exact Function.update_of_ne hu _ _
    · rfl
  case events => exact ⟨_, rfl, Or.inl rfl⟩

theorem timedRestart_moved
    (hsect : ¬ (d.state.privateData thread).sectn ≤ (d.state.privateData thread).sectionNum) :
    Moved thread ((d.state.privateData thread).nextTime (d.state.time thread)) d
      (timedRestart d thread) := by
  constructor
  case same => exact ⟨rfl, rfl, rfl, rfl, rfl, rfl⟩
  case privateData =>
    rw [TimedPrivateData.next, if_neg hsect]
    simp [timedRestart]
  case time =>
    rw [TimedPrivateData.nextTime, if_neg hsect]
    show (if _ then Function.update d.state.time thread 0 else d.state.time) = _
    by_cases hover : (d.state.privateData thread).runNum + 1 > (d.state.privateData thread).frequency
    · rw [if_pos (decide_eq_true hover), if_pos hover]
    · rw [if_neg (by simpa using hover), if_neg hover, Function.update_eq_self]
  case ipc => exact fun u _ => rfl
  case events => exact ⟨_, rfl, Or.inr rfl⟩

theorem timedDue_moved (herror : d.timedError = false)
    (hwaits : (d.state.ipc thread).isSome ↔
      (d.state.privateData thread).sectn ≤ (d.state.privateData thread).sectionNum) :
    Moved thread ((d.state.privateData thread).nextTime (d.state.time thread)) d
      (timedDue d thread) := by
  unfold timedDue
  cases hipc : d.state.ipc thread with
  | some wait =>
      rw [hipc] at hwaits
      have hsect := hwaits.mp rfl
      dsimp only
      rw [if_pos hsect]
      exact timedPost_moved hsect
  | none =>
      rw [hipc] at hwaits
      dsimp only
      rw [herror, if_neg Bool.false_ne_true]
      exact timedRestart_moved fun hsect => Bool.false_ne_true (hwaits.mpr hsect)

/-- The thread waits for entry number `m`. -/
structure Waiting (x : TimedState T) (thread : T) (tab : Timetable) (m : Nat) : Prop where
  placed : Placed (x.privateData thread) tab (m % tab.size)
  time : (x.time thread).toNat = tab.entry (m % tab.size)

theorem timedDue_last : (timedDue d thread).state.lastTimedThread = d.state.lastTimedThread := by
  unfold timedDue
  split <;> split <;> rfl

/-- A thread that is due in time goes on to the next entry. -/
theorem timedPop_moved {tab : Timetable} {m cpu : Nat}
    (hwaiting : Waiting d.state thread tab m) (herror : d.timedError = false)
    (hlast : d.state.lastTimedThread cpu ≠ some (d.state.runningThread cpu))
    (hwaits : (d.state.ipc thread).isSome ↔
      (d.state.privateData thread).sectn ≤ (d.state.privateData thread).sectionNum) :
    ∃ d' time, timedPop cpu d thread =
        some (d', some ((tab.instant (m + 1) : Int) - (tab.instant m : Int))) ∧
      Moved thread time d d' ∧
      d'.state.lastTimedThread = Function.update d.state.lastTimedThread cpu (some thread) ∧
      Waiting d'.state thread tab (m + 1) := by
  obtain ⟨hnext, hle, hdelay⟩ := hwaiting.placed.next_instant hwaiting.time
  obtain ⟨time, hreload, hentry⟩ := hnext.reload hle
  have hstop : timedStop cpu d = d := if_neg hlast
  let last := d.setLast cpu thread
  have hmoved : Moved thread _ last (timedDue last thread) := timedDue_moved herror hwaits
  have hdata : (timedDue last thread).state.privateData thread =
      (d.state.privateData thread).next := by
    rw [hmoved.privateData, Function.update_self]
    rfl
  have htimes : (timedDue last thread).state.time thread =
      (d.state.privateData thread).nextTime (d.state.time thread) := by
    rw [hmoved.time, Function.update_self]
    rfl
  refine ⟨{ timedDue last thread with
    state := { (timedDue last thread).state with
      time := Function.update (timedDue last thread).state.time thread time } }, time,
    ?_, ?_, timedDue_last, ?_⟩
  · have hruns : ((timedDue last thread).state.privateData thread).runNum ≤
        ((timedDue last thread).state.privateData thread).frequency := by
      rw [hdata]
      exact hnext.runNum.2
    rw [timedPop, hstop]
    show timedReload (timedDue last thread) thread = _
    rw [timedReload, if_pos hruns, hdata, htimes, hreload, hdelay]
    rfl
  · constructor
    case same =>
      exact ⟨hmoved.same.running, hmoved.same.queue, hmoved.same.created, hmoved.same.now,
        hmoved.same.log, hmoved.same.error⟩
    case privateData => exact hmoved.privateData
    case time =>
      show Function.update (timedDue last thread).state.time thread time = _
      rw [hmoved.time]
      exact Function.update_idem ..
    case ipc => exact hmoved.ipc
    case events => exact hmoved.events
  · constructor
    case placed =>
      show Placed ((timedDue last thread).state.privateData thread) tab _
      rw [hdata]
      exact hnext
    case time =>
      show (Function.update (timedDue last thread).state.time thread time thread).toNat = _
      rw [Function.update_self]
      exact hentry

end Due

/-! ### The threads of one CPU -/

/-- The loop takes the threads of a list in order, with given delays. -/
inductive Pops (cpu : Nat) (rearm : T → Option Int) : TimedDeal T → List T → TimedDeal T → Prop
  | nil (d : TimedDeal T) : Pops cpu rearm d [] d
  | cons {d d' d'' : TimedDeal T} {t : T} {Z : List T} :
      timedPop cpu d t = some (d', rearm t) → Pops cpu rearm d' Z d'' → Pops cpu rearm d (t :: Z) d''

/-- The loop takes what a tick queue with these delays gives. -/
theorem timedPopLoop_of_tickPopLoop (cpu : Nat) {rearm : T → Option Int} (fuel : Nat)
    {q q' : List (T × Int)} {tmp : Option T} {popped popped' : List T}
    (hloop : tickPopLoop rearm fuel q tmp popped = some (popped', q')) :
    ∃ Z, popped' = popped ++ Z ∧ ∀ d d' : TimedDeal T, Pops cpu rearm d Z d' →
      timedPopLoop cpu fuel d q tmp = some (d', q') := by
  induction fuel generalizing q tmp popped with
  | zero => cases hloop
  | succ fuel ih =>
      cases tmp with
      | none =>
          cases hloop
          refine ⟨[], (List.append_nil _).symm, fun d d' hpops => ?_⟩
          cases hpops
          rfl
      | some t =>
          rw [tickPopLoop] at hloop
          by_cases hv : nodeValue q t > 0
          · rw [if_pos hv] at hloop
            cases hloop
            refine ⟨[], (List.append_nil _).symm, fun d d' hpops => ?_⟩
            cases hpops
            rw [timedPopLoop, if_pos hv]
          · rw [if_neg hv] at hloop
            obtain ⟨Z, rfl, hrest⟩ := ih hloop
            refine ⟨t :: Z, List.append_assoc _ _ _, fun d d' hpops => ?_⟩
            obtain _ | ⟨hpop, hpops⟩ := hpops
            rw [timedPopLoop, if_neg hv, hpop]
            exact hrest _ _ hpops

/-- What taking the threads `Z` leaves, when thread `t` waits for entry number
`m t`. -/
structure Took (cpu : Nat) (tab : T → Timetable) (m : T → Nat) (Z : List T) (d d' : TimedDeal T) :
    Prop where
  same : SameTimed d d'
  taken : ∀ t ∈ Z, Waiting d'.state t (tab t) (m t + 1)
  rest : ∀ t, t ∉ Z → d'.state.privateData t = d.state.privateData t ∧
    d'.state.time t = d.state.time t ∧ d'.state.ipc t = d.state.ipc t
  last : ∀ c, c ≠ cpu → d'.state.lastTimedThread c = d.state.lastTimedThread c
  events : ∃ es, d'.events = d.events ++ es ∧ ∀ t k,
    (∃ e ∈ es, TimedEvent.Delivers e t k) ↔ t ∈ Z ∧ k = m t % (tab t).size

omit [DecidableEq T] in
theorem Took.nil {cpu : Nat} {tab : T → Timetable} {m : T → Nat} (d : TimedDeal T) :
    Took cpu tab m [] d d where
  same := SameTimed.refl d
  taken t ht := (List.not_mem_nil ht).elim
  rest t _ := ⟨rfl, rfl, rfl⟩
  last c _ := rfl
  events := ⟨[], (List.append_nil _).symm, fun t k => by simp⟩

omit [DecidableEq T] in
theorem delivers_iff {e : TimedEvent T} {thread t : T} {j k : Nat} (he : e.Delivers thread j) :
    e.Delivers t k ↔ t = thread ∧ k = j := by
  unfold TimedEvent.Delivers at he ⊢
  rcases he with rfl | rfl <;> simp [eq_comm]

omit [DecidableEq T] in
/-- A waiting thread does not notice what is done to the others. -/
theorem Waiting.congr {x y : TimedState T} {t : T} {tab : Timetable} {m : Nat}
    (h : Waiting x t tab m) (hdata : y.privateData t = x.privateData t)
    (htime : y.time t = x.time t) : Waiting y t tab m :=
  ⟨hdata ▸ h.placed, htime ▸ h.time⟩

/-- All threads that are due are taken in time. -/
theorem pops_due (cpu : Nat) (tab : T → Timetable) (m : T → Nat) (Z : List T) :
    ∀ {d : TimedDeal T}, Z.Nodup → (∀ t ∈ Z, Waiting d.state t (tab t) (m t)) →
      (∀ t ∈ Z, OnTime d.state cpu t) → d.timedError = false →
        (Z ≠ [] → d.state.lastTimedThread cpu ≠ some (d.state.runningThread cpu)) →
          ∃ d', Pops cpu (fun t => some (((tab t).instant (m t + 1) : Int) - (tab t).instant (m t)))
              d Z d' ∧ Took cpu tab m Z d d' := by
  induction Z with
  | nil =>
      intro d _ _ _ _ _
      exact ⟨d, Pops.nil d, Took.nil d⟩
  | cons z Z ih =>
      intro d hnodup hwaiting hontime herror hlast
      rw [List.nodup_cons] at hnodup
      have hz := hwaiting z List.mem_cons_self
      obtain ⟨d₁, time, hpop, hmoved, hlast₁, hz₁⟩ := timedPop_moved hz herror
        (hlast (List.cons_ne_nil z Z)) (hontime z List.mem_cons_self).waits
      have hother : ∀ t, t ≠ z → d₁.state.privateData t = d.state.privateData t ∧
          d₁.state.time t = d.state.time t ∧ d₁.state.ipc t = d.state.ipc t := by
        intro t ht
        refine ⟨?_, ?_, hmoved.ipc t ht⟩
        · rw [hmoved.privateData, Function.update_of_ne ht]
        · rw [hmoved.time, Function.update_of_ne ht]
      have hne : ∀ t ∈ Z, t ≠ z := fun t ht he => hnodup.1 (he ▸ ht)
      obtain ⟨d₂, hpops, htook⟩ := ih hnodup.2
        (fun t ht => by
          obtain ⟨hdata, htime, -⟩ := hother t (hne t ht)
          exact (hwaiting t (List.mem_cons_of_mem _ ht)).congr hdata htime)
        (fun t ht => by
          obtain ⟨hdata, -, hipc⟩ := hother t (hne t ht)
          obtain ⟨hstopped, hwaits⟩ := hontime t (List.mem_cons_of_mem _ ht)
          refine ⟨?_, ?_⟩
          · rw [hmoved.same.running]
            exact hstopped
          · rw [hdata, hipc]
            exact hwaits)
        (hmoved.same.error.trans herror)
        (fun _ => by
          -- the thread just taken is not the one that runs
          rw [hlast₁, hmoved.same.running, Function.update_self]
          exact fun he => (hontime z List.mem_cons_self).stopped (Option.some.inj he).symm)
      refine ⟨d₂, Pops.cons hpop hpops, ?_⟩
      constructor
      case same => exact hmoved.same.trans htook.same
      case taken =>
        intro t ht
        rcases List.mem_cons.mp ht with rfl | ht
        · obtain ⟨hdata, htime, -⟩ := htook.rest t hnodup.1
          exact hz₁.congr hdata htime
        · exact htook.taken t ht
      case rest =>
        intro t ht
        rw [List.mem_cons, not_or] at ht
        obtain ⟨hdata, htime, hipc⟩ := htook.rest t ht.2
        obtain ⟨hdata', htime', hipc'⟩ := hother t ht.1
        exact ⟨hdata.trans hdata', htime.trans htime', hipc.trans hipc'⟩
      case last =>
        intro c hc
        rw [htook.last c hc, hlast₁, Function.update_of_ne hc]
      case events =>
        obtain ⟨e, he, hdel⟩ := hmoved.events
        obtain ⟨es, hes, hall⟩ := htook.events
        refine ⟨e :: es, ?_, fun t k => ?_⟩
        · rw [hes, he, List.append_assoc]
          rfl
        · rw [hz.placed.offset] at hdel
          have hcons : (∃ e' ∈ e :: es, TimedEvent.Delivers e' t k) ↔
              e.Delivers t k ∨ ∃ e' ∈ es, TimedEvent.Delivers e' t k := by
            simp
          rw [hcons, delivers_iff hdel, hall, List.mem_cons, or_and_right]
          constructor
          · rintro (⟨rfl, rfl⟩ | hin)
            · exact Or.inl ⟨rfl, rfl⟩
            · exact Or.inr hin
          · rintro (⟨rfl, rfl⟩ | hin)
            · exact Or.inl ⟨rfl, rfl⟩
            · exact Or.inr hin

/-- More fuel changes nothing. -/
theorem timedPopLoop_mono {cpu : Nat} {res : TimedDeal T × List (T × Int)} (fuel more : Nat)
    (hle : fuel ≤ more) {d : TimedDeal T} {q : List (T × Int)} {tmp : Option T}
    (hloop : timedPopLoop cpu fuel d q tmp = some res) :
    timedPopLoop cpu more d q tmp = some res := by
  induction fuel generalizing more d q tmp with
  | zero => cases hloop
  | succ fuel ih =>
      obtain ⟨more, rfl⟩ := Nat.exists_eq_succ_of_ne_zero (Nat.ne_zero_of_lt hle)
      cases tmp with
      | none => exact hloop
      | some t =>
          rw [timedPopLoop] at hloop ⊢
          by_cases hv : nodeValue q t > 0
          · rw [if_pos hv] at hloop ⊢
            exact hloop
          · rw [if_neg hv] at hloop ⊢
            obtain ⟨res', hpop, hrest⟩ := Option.bind_eq_some_iff.mp hloop
            rw [hpop]
            exact ih more (Nat.succ_le_succ_iff.mp hle) hrest

/-- The threads of the queue of `cpu` that are due at this tick. -/
def IsDue (x : TimedState T) (cpu : Nat) (t : T) : Prop :=
  t ∈ keys (x.timedTimeQueue cpu) ∧ expiry (x.timedTimeQueue cpu) t = 1

/-- The entry a queued thread waits for after the tick. -/
def entryAfter (x : TimedState T) (cpu : Nat) (m : T → Nat) (t : T) : Nat :=
  if expiry (x.timedTimeQueue cpu) t = 1 then m t + 1 else m t

/-- What the handler leaves of the queue of a CPU and its threads. -/
structure QueueDealt (cpu : Nat) (tab : T → Timetable) (m : T → Nat) (x y : TimedState T) :
    Prop where
  ordered : Ordered (y.timedTimeQueue cpu)
  waits : HeadWaits (y.timedTimeQueue cpu)
  keys_iff : ∀ t, t ∈ keys (y.timedTimeQueue cpu) ↔ t ∈ keys (x.timedTimeQueue cpu)
  expiry_eq : ∀ t ∈ keys (x.timedTimeQueue cpu),
    expiry (y.timedTimeQueue cpu) t =
      if expiry (x.timedTimeQueue cpu) t = 1 then
        ((tab t).instant (m t + 1) : Int) - (tab t).instant (m t)
      else expiry (x.timedTimeQueue cpu) t - 1
  waiting : ∀ t ∈ keys (x.timedTimeQueue cpu), Waiting y t (tab t) (entryAfter x cpu m t)

/-- What the handler leaves as it was. -/
structure SameThread (x y : TimedState T) (t : T) : Prop where
  privateData : y.privateData t = x.privateData t
  time : y.time t = x.time t
  ipc : y.ipc t = x.ipc t

/-- What the handler does for one CPU. -/
structure CpuDealt (cpu : Nat) (tab : T → Timetable) (m : T → Nat) (d d' : TimedDeal T) : Prop where
  queue : QueueDealt cpu tab m d.state d'.state
  rest : ∀ t, t ∉ keys (d.state.timedTimeQueue cpu) → SameThread d.state d'.state t
  others : ∀ c, c ≠ cpu → d'.state.timedTimeQueue c = d.state.timedTimeQueue c ∧
    d'.state.lastTimedThread c = d.state.lastTimedThread c
  running : d'.state.runningThread = d.state.runningThread
  created : d'.state.created = d.state.created
  log : d'.state.log = d.state.log
  error : d'.timedError = false
  events : ∃ es, d'.events = d.events ++ es ∧ ∀ t k,
    (∃ e ∈ es, TimedEvent.Delivers e t k) ↔ IsDue d.state cpu t ∧ k = m t % (tab t).size

theorem timedCpuDeal_dealt {cpu : Nat} (tab : T → Timetable) (m : T → Nat) {d : TimedDeal T}
    (hordered : Ordered (d.state.timedTimeQueue cpu))
    (hwaits : HeadWaits (d.state.timedTimeQueue cpu))
    (hwaiting : ∀ t ∈ keys (d.state.timedTimeQueue cpu), Waiting d.state t (tab t) (m t))
    (hontime : ∀ t, IsDue d.state cpu t → OnTime d.state cpu t)
    (hlast : (∃ t, IsDue d.state cpu t) →
      d.state.lastTimedThread cpu ≠ some (d.state.runningThread cpu))
    (herror : d.timedError = false) :
    ∃ d', timedCpuDeal d cpu = some d' ∧ CpuDealt cpu tab m d d' := by
  let rearm : T → Option Int := fun t =>
    some (((tab t).instant (m t + 1) : Int) - (tab t).instant (m t))
  have hre : Rearms rearm := by
    intro t tick htick
    have hlt : (tab t).instant (m t) < (tab t).instant (m t + 1) := Timetable.instant_lt_succ _
    cases htick
    omega
  obtain ⟨Z, q', hdeal, hordered', hwaits', hiff, hrest⟩ := tickDeal_spec hre hordered
  obtain ⟨hnodup, hsub, hkeys, hagain⟩ := tickDeal_popped hre hordered hdeal
  -- the head waits, so the count-down is one tick for everybody
  have hdown : ∀ t ∈ keys (d.state.timedTimeQueue cpu),
      expiry (tickCountDown (d.state.timedTimeQueue cpu)) t =
        expiry (d.state.timedTimeQueue cpu) t - 1 := by
    intro t ht
    rw [expiry_tickCountDown hordered ht, if_neg (hwaits.headTicks_ne ht)]
  have hdue : ∀ t, t ∈ Z ↔ IsDue d.state cpu t := by
    intro t
    constructor
    · intro ht
      have hexp := (hiff t (hsub t ht)).mp ht
      rw [hdown t (hsub t ht)] at hexp
      exact ⟨hsub t ht, by omega⟩
    · rintro ⟨hin, hexp⟩
      refine (hiff t hin).mpr ?_
      rw [hdown t hin, hexp]
      rfl
  obtain ⟨d₁, hpops, htook⟩ := pops_due cpu tab m Z hnodup
    (fun t ht => hwaiting t (hsub t ht)) (fun t ht => hontime t ((hdue t).mp ht)) herror
    (fun hne => by
      obtain ⟨t, ht⟩ := List.exists_mem_of_ne_nil Z hne
      exact hlast ⟨t, (hdue t).mp ht⟩)
  obtain ⟨Z', hZ, hloop⟩ := timedPopLoop_of_tickPopLoop cpu _ hdeal
  obtain rfl : Z = Z' := hZ
  have hrun : timedPopLoop cpu (timedFuel (tickCountDown (d.state.timedTimeQueue cpu))) d
      (tickCountDown (d.state.timedTimeQueue cpu))
      ((tickCountDown (d.state.timedTimeQueue cpu)).head?.map Prod.fst) = some (d₁, q') := by
    refine timedPopLoop_mono _ _ ?_ (hloop d d₁ hpops)
    exact Nat.succ_le_succ (Nat.le_mul_of_pos_right _ (by decide))
  have hqueue : ∀ c, (Function.update d₁.state.timedTimeQueue cpu q') c =
      if c = cpu then q' else d.state.timedTimeQueue c := by
    intro c
    rw [htook.same.queue, Function.update_apply]
  refine ⟨_, congrArg (Option.map _) hrun, ?_⟩
  have hself : (Function.update d₁.state.timedTimeQueue cpu q') cpu = q' := Function.update_self ..
  refine ⟨?_, fun t hin => ?_, fun c hc => ⟨(hqueue c).trans (if_neg hc), htook.last c hc⟩,
    htook.same.running, htook.same.created, htook.same.log, htook.same.error.trans herror, ?_⟩
  rotate_left
  · obtain ⟨hdata, htime, hipc⟩ := htook.rest t fun ht => hin (hsub t ht)
    exact ⟨hdata, htime, hipc⟩
  · obtain ⟨es, hes, hall⟩ := htook.events
    exact ⟨es, hes, fun t k => by rw [hall, hdue]⟩
  constructor
  case ordered =>
    show Ordered (Function.update d₁.state.timedTimeQueue cpu q' cpu)
    rw [hself]
    exact hordered'
  case waits =>
    show HeadWaits (Function.update d₁.state.timedTimeQueue cpu q' cpu)
    rw [hself]
    exact hwaits'
  case keys_iff =>
    intro t
    show t ∈ keys (Function.update d₁.state.timedTimeQueue cpu q' cpu) ↔ _
    rw [hself]
    by_cases ht : t ∈ Z
    · exact iff_of_true (hagain t ht _ rfl).1 (hsub t ht)
    · exact hkeys t ht
  case expiry_eq =>
    intro t hin
    show expiry (Function.update d₁.state.timedTimeQueue cpu q' cpu) t = _
    rw [hself]
    by_cases ht : t ∈ Z
    · rw [if_pos ((hdue t).mp ht).2, (hagain t ht _ rfl).2]
    · rw [if_neg fun he => ht ((hdue t).mpr ⟨hin, he⟩), (hrest t hin ht).2, hdown t hin]
  case waiting =>
    intro t hin
    unfold entryAfter
    by_cases ht : t ∈ Z
    · rw [if_pos ((hdue t).mp ht).2]
      exact (htook.taken t ht).congr rfl rfl
    · rw [if_neg fun he => ht ((hdue t).mpr ⟨hin, he⟩)]
      obtain ⟨hdata, htime, -⟩ := htook.rest t ht
      exact (hwaiting t hin).congr hdata htime

/-! ### The tick -/

/-- The state in front of a tick: every thread is queued for its next entry,
and the threads that are due are on time. -/
structure TickReady (tab : T → Timetable) (m : T → Nat) (x : TimedState T) : Prop where
  ordered : ∀ c, Ordered (x.timedTimeQueue c)
  waits : ∀ c, HeadWaits (x.timedTimeQueue c)
  apart : ∀ c c' t, t ∈ keys (x.timedTimeQueue c) → t ∈ keys (x.timedTimeQueue c') → c = c'
  waiting : ∀ c, ∀ t ∈ keys (x.timedTimeQueue c), Waiting x t (tab t) (m t)
  ontime : ∀ c < CFG_MAX_CPU, ∀ t, IsDue x c t → OnTime x c t ∧
    x.lastTimedThread c ≠ some (x.runningThread c)

/-- The CPUs of `done` are dealt with, and the others not yet. -/
structure PartlyDealt (tab : T → Timetable) (m : T → Nat) (x : TimedState T) (done : List Nat)
    (d : TimedDeal T) : Prop where
  queue : ∀ c ∈ done, QueueDealt c tab m x d.state
  rest : ∀ t, (∀ c ∈ done, t ∉ keys (x.timedTimeQueue c)) → SameThread x d.state t
  others : ∀ c, c ∉ done → d.state.timedTimeQueue c = x.timedTimeQueue c ∧
    d.state.lastTimedThread c = x.lastTimedThread c
  running : d.state.runningThread = x.runningThread
  created : d.state.created = x.created
  log : d.state.log = x.log
  error : d.timedError = false
  events : ∀ t k, (∃ e ∈ d.events, TimedEvent.Delivers e t k) ↔
    (∃ c ∈ done, IsDue x c t) ∧ k = m t % (tab t).size

omit [DecidableEq T] in
theorem SameThread.trans {x y z : TimedState T} {t : T} (h : SameThread x y t)
    (h' : SameThread y z t) : SameThread x z t :=
  ⟨h'.privateData.trans h.privateData, h'.time.trans h.time, h'.ipc.trans h.ipc⟩

/-- Only the queue of the CPU matters of the state before. -/
theorem QueueDealt.of_queue {cpu : Nat} {tab : T → Timetable} {m : T → Nat} {x x' y : TimedState T}
    (h : QueueDealt cpu tab m x y) (hqueue : x.timedTimeQueue cpu = x'.timedTimeQueue cpu) :
    QueueDealt cpu tab m x' y where
  ordered := h.ordered
  waits := h.waits
  keys_iff := hqueue ▸ h.keys_iff
  expiry_eq := hqueue ▸ h.expiry_eq
  waiting t ht := by
    have hentry : entryAfter x cpu m t = entryAfter x' cpu m t := by
      unfold entryAfter
      rw [hqueue]
    exact hentry ▸ h.waiting t (hqueue ▸ ht)

/-- What is done to other threads and queues does not matter. -/
theorem QueueDealt.frame {cpu : Nat} {tab : T → Timetable} {m : T → Nat} {x y z : TimedState T}
    (h : QueueDealt cpu tab m x y) (hqueue : z.timedTimeQueue cpu = y.timedTimeQueue cpu)
    (hsame : ∀ t ∈ keys (x.timedTimeQueue cpu), SameThread y z t) : QueueDealt cpu tab m x z where
  ordered := hqueue ▸ h.ordered
  waits := hqueue ▸ h.waits
  keys_iff := hqueue ▸ h.keys_iff
  expiry_eq := hqueue ▸ h.expiry_eq
  waiting t ht := (h.waiting t ht).congr (hsame t ht).privateData (hsame t ht).time

/-- The handler goes on to the next CPU. -/
theorem PartlyDealt.cpu {tab : T → Timetable} {m : T → Nat} {x : TimedState T} {done : List Nat}
    {d : TimedDeal T} (h : PartlyDealt tab m x done d) (hready : TickReady tab m x) (cpu : Nat)
    (hcpu : cpu < CFG_MAX_CPU) (hnew : cpu ∉ done) :
    ∃ d', timedCpuDeal d cpu = some d' ∧ PartlyDealt tab m x (cpu :: done) d' := by
  obtain ⟨hqueue, hlast⟩ := h.others cpu hnew
  -- no thread of this CPU is in a queue that was dealt with
  have hapart : ∀ t ∈ keys (x.timedTimeQueue cpu), ∀ c ∈ done, t ∉ keys (x.timedTimeQueue c) :=
    fun t ht c hc hin => hnew (hready.apart cpu c t ht hin ▸ hc)
  have hsame : ∀ t ∈ keys (x.timedTimeQueue cpu), SameThread x d.state t :=
    fun t ht => h.rest t (hapart t ht)
  have hisDue : ∀ t, IsDue d.state cpu t ↔ IsDue x cpu t := by
    intro t
    unfold IsDue
    rw [hqueue]
  obtain ⟨d', hdeal, hdealt⟩ := timedCpuDeal_dealt tab m (d := d)
    (hqueue ▸ hready.ordered cpu) (hqueue ▸ hready.waits cpu)
    (fun t ht => by
      rw [hqueue] at ht
      exact (hready.waiting cpu t ht).congr (hsame t ht).privateData (hsame t ht).time)
    (fun t ht => by
      obtain ⟨hstopped, hwaits⟩ := (hready.ontime cpu hcpu t ((hisDue t).mp ht)).1
      have ht := hsame t ((hisDue t).mp ht).1
      refine ⟨?_, ?_⟩
      · rw [h.running]
        exact hstopped
      · rw [ht.ipc, ht.privateData]
        exact hwaits)
    (fun ⟨t, ht⟩ => by
      rw [hlast, h.running]
      exact (hready.ontime cpu hcpu t ((hisDue t).mp ht)).2)
    h.error
  refine ⟨d', hdeal, ?_⟩
  constructor
  case queue =>
    intro c hc
    rcases List.mem_cons.mp hc with rfl | hc
    · exact hdealt.queue.of_queue hqueue
    · have hne : c ≠ cpu := fun he => hnew (he ▸ hc)
      refine (h.queue c hc).frame (hdealt.others c hne).1 fun t ht => hdealt.rest t fun hin => ?_
      rw [hqueue] at hin
      exact hapart t hin c hc ht
  case rest =>
    intro t ht
    refine (h.rest t fun c hc => ht c (List.mem_cons_of_mem _ hc)).trans (hdealt.rest t ?_)
    rw [hqueue]
    exact ht cpu List.mem_cons_self
  case others =>
    intro c hc
    rw [List.mem_cons, not_or] at hc
    obtain ⟨hq, hl⟩ := hdealt.others c hc.1
    obtain ⟨hq', hl'⟩ := h.others c hc.2
    exact ⟨hq.trans hq', hl.trans hl'⟩
  case running => exact hdealt.running.trans h.running
  case created => exact hdealt.created.trans h.created
  case log => exact hdealt.log.trans h.log
  case error => exact hdealt.error
  case events =>
    intro t k
    obtain ⟨es, hes, hall⟩ := hdealt.events
    have hsplit : (∃ e ∈ d.events ++ es, TimedEvent.Delivers e t k) ↔
        (∃ e ∈ d.events, TimedEvent.Delivers e t k) ∨ ∃ e ∈ es, TimedEvent.Delivers e t k := by
      simp only [List.mem_append, or_and_right, exists_or]
    have hdone : (∃ c ∈ cpu :: done, IsDue x c t) ↔
        IsDue x cpu t ∨ ∃ c ∈ done, IsDue x c t := by
      simp
    rw [hes, hsplit, h.events t k, hall t k, hisDue t, hdone, or_and_right, or_comm]

/-- `timed_time_deal` returns from a state where all are on time. -/
theorem timedTimeDeal_dealt {tab : T → Timetable} {m : T → Nat} {x : TimedState T}
    (hready : TickReady tab m x) :
    ∃ d, timedTimeDeal x =
        some { d.state with now := x.now + 1, log := (x.now + 1, d.events) :: x.log } ∧
      PartlyDealt tab m x [1, 0] d := by
  have hstart : PartlyDealt tab m x [] ⟨x, false, []⟩ := by
    refine ⟨fun _ h => (List.not_mem_nil h).elim, fun _ _ => ⟨rfl, rfl, rfl⟩, fun _ _ => ⟨rfl, rfl⟩,
      rfl, rfl, rfl, rfl, fun t k => ?_⟩
    simp
  obtain ⟨d₀, hdeal₀, h₀⟩ := hstart.cpu hready 0 (by decide) List.not_mem_nil
  obtain ⟨d₁, hdeal₁, h₁⟩ := h₀.cpu hready 1 (by decide) (by decide)
  refine ⟨d₁, ?_, h₁⟩
  have hrun : (List.range CFG_MAX_CPU).foldlM timedCpuDeal ⟨x, false, []⟩ = some d₁ := by
    show [0, 1].foldlM timedCpuDeal ⟨x, false, []⟩ = _
    rw [List.foldlM_cons, hdeal₀]
    show [1].foldlM timedCpuDeal d₀ = _
    rw [List.foldlM_cons, hdeal₁]
    rfl
  unfold timedTimeDeal
  rw [hrun]
  rfl

/-! ### The invariant -/

/-- No timed thread was created, and no tick was handled. -/
structure TimedState.Fresh (x : TimedState T) : Prop where
  created : ∀ t, x.created t = none
  queue : ∀ c, x.timedTimeQueue c = []
  now : x.now = 0
  log : x.log = []

/-- A tick delivered the entries whose instant it was. -/
def DeliveredAt (x : TimedState T) (tab : T → Timetable) (n : Nat) (es : List (TimedEvent T)) :
    Prop :=
  ∀ t k, (∃ e ∈ es, TimedEvent.Delivers e t k) ↔
    ∃ b, x.created t = some b ∧ ∃ j, n = b + (tab t).instant j ∧ k = j % (tab t).size

/-- The invariant of a run: thread `t` has the timetable `tab t` and waits for
its entry number `m t`. -/
structure TimedInv (tab : T → Timetable) (m : T → Nat) (x : TimedState T) : Prop where
  ordered : ∀ c, Ordered (x.timedTimeQueue c)
  waits : ∀ c, HeadWaits (x.timedTimeQueue c)
  apart : ∀ c c' t, t ∈ keys (x.timedTimeQueue c) → t ∈ keys (x.timedTimeQueue c') → c = c'
  queued : ∀ c t, t ∈ keys (x.timedTimeQueue c) → c < CFG_MAX_CPU ∧ (x.created t).isSome
  created : ∀ t b, x.created t = some b → ∃ c, t ∈ keys (x.timedTimeQueue c)
  waiting : ∀ c, ∀ t ∈ keys (x.timedTimeQueue c), Waiting x t (tab t) (m t)
  /-- a thread expires at the instant of its entry -/
  expiry : ∀ c t b, t ∈ keys (x.timedTimeQueue c) → x.created t = some b →
    expiry (x.timedTimeQueue c) t = (b : Int) + (tab t).instant (m t) - x.now
  /-- which is the first one that is not over -/
  past : ∀ t b, x.created t = some b → b ≤ x.now ∧ x.now < b + (tab t).instant (m t) ∧
    ∀ j < m t, b + (tab t).instant j ≤ x.now
  ticks : x.log.map Prod.fst = (List.range' 1 x.now).reverse
  log : ∀ n es, (n, es) ∈ x.log → n ≤ x.now ∧ DeliveredAt x tab n es

theorem TimedState.Fresh.inv {x : TimedState T} (h : x.Fresh) (tab : T → Timetable) :
    TimedInv tab (fun _ => 0) x where
  ordered c := by rw [h.queue]; exact ⟨List.nodup_nil, fun _ hn => absurd hn List.not_mem_nil⟩
  waits c := by rw [h.queue]; intro node hnode; cases hnode
  apart c c' t ht _ := by rw [h.queue] at ht; simp at ht
  queued c t ht := by rw [h.queue] at ht; simp at ht
  created t b hb := by rw [h.created] at hb; cases hb
  waiting c t ht := by rw [h.queue] at ht; simp at ht
  expiry c t b _ hb := by rw [h.created] at hb; cases hb
  past t b hb := by rw [h.created] at hb; cases hb
  ticks := by rw [h.log, h.now]; rfl
  log n es hin := by rw [h.log] at hin; cases hin

namespace TimedInv

variable {tab : T → Timetable} {m : T → Nat} {x : TimedState T}

/-- The threads and the scheduler keep to their own. -/
theorem env (h : TimedInv tab m x) (sched : Sched T) (ipc : T → Option TimedWait)
    (running : Nat → T) :
    TimedInv tab m { x with sched := sched, ipc := ipc, runningThread := running } where
  ordered := h.ordered
  waits := h.waits
  apart := h.apart
  queued := h.queued
  created := h.created
  waiting c t ht := (h.waiting c t ht).congr rfl rfl
  expiry := h.expiry
  past := h.past
  ticks := h.ticks
  log := h.log

/-- The thread of a queue that is due is at the instant of its entry. -/
theorem isDue_iff (h : TimedInv tab m x) {c : Nat} {t : T} (ht : t ∈ keys (x.timedTimeQueue c))
    {b : Nat} (hb : x.created t = some b) :
    Lib.expiry (x.timedTimeQueue c) t = 1 ↔ x.now + 1 = b + (tab t).instant (m t) := by
  rw [h.expiry c t b ht hb]
  omega

/-- The entry a thread waits for is the only one that can be due at the next tick. -/
theorem instant_iff (h : TimedInv tab m x) {t : T} {b : Nat} (hb : x.created t = some b) (j : Nat) :
    x.now + 1 = b + (tab t).instant j ↔ x.now + 1 = b + (tab t).instant (m t) ∧ j = m t := by
  obtain ⟨-, hnow, hpast⟩ := h.past t b hb
  constructor
  · intro hj
    rcases Nat.lt_trichotomy j (m t) with hlt | heq | hgt
    · have := hpast j hlt
      omega
    · exact ⟨heq ▸ hj, heq⟩
    · have hlt : (tab t).instant (m t) < (tab t).instant j := Timetable.instant_strictMono hgt
      omega
  · rintro ⟨hj, rfl⟩
    exact hj

/-- A thread is taken by a tick when it is due on its CPU. -/
def Taken (x : TimedState T) (t : T) : Prop := ∃ c ∈ [1, 0], IsDue x c t

open Classical in
/-- The entries that are waited for after a tick. -/
noncomputable def entriesAfter (x : TimedState T) (m : T → Nat) (t : T) : Nat :=
  if Taken x t then m t + 1 else m t

theorem taken_iff (h : TimedInv tab m x) {c : Nat} {t : T}
    (ht : t ∈ keys (x.timedTimeQueue c)) :
    Taken x t ↔ Lib.expiry (x.timedTimeQueue c) t = 1 := by
  constructor
  · rintro ⟨c', -, hin, hexp⟩
    rwa [h.apart c c' t ht hin]
  · intro hexp
    have hc : c < 2 := (h.queued c t ht).1
    refine ⟨c, ?_, ht, hexp⟩
    rw [List.mem_cons, List.mem_singleton]
    omega

theorem entriesAfter_eq (h : TimedInv tab m x) {c : Nat} {t : T}
    (ht : t ∈ keys (x.timedTimeQueue c)) : entriesAfter x m t = entryAfter x c m t := by
  have hiff := h.taken_iff ht
  by_cases htaken : Taken x t
  · rw [entriesAfter, if_pos htaken, entryAfter, if_pos (hiff.mp htaken)]
  · rw [entriesAfter, if_neg htaken, entryAfter, if_neg fun he => htaken (hiff.mpr he)]

theorem taken_iff_instant (h : TimedInv tab m x) {t : T} {b : Nat} (hb : x.created t = some b) :
    Taken x t ↔ x.now + 1 = b + (tab t).instant (m t) := by
  obtain ⟨c, ht⟩ := h.created t b hb
  rw [h.taken_iff ht, h.isDue_iff ht hb]

/-- The tick delivers the entries whose instant it is. -/
theorem deliveredAt (h : TimedInv tab m x) {d : TimedDeal T}
    (hdealt : PartlyDealt tab m x [1, 0] d) : DeliveredAt x tab (x.now + 1) d.events := by
  intro t k
  rw [hdealt.events t k]
  constructor
  · rintro ⟨htaken, rfl⟩
    obtain ⟨c, -, ht, hexp⟩ := id htaken
    obtain ⟨b, hb⟩ := Option.isSome_iff_exists.mp (h.queued c t ht).2
    exact ⟨b, hb, m t, (h.taken_iff_instant hb).mp htaken, rfl⟩
  · rintro ⟨b, hb, j, hj, rfl⟩
    obtain ⟨hnow, rfl⟩ := (h.instant_iff hb j).mp hj
    exact ⟨(h.taken_iff_instant hb).mpr hnow, rfl⟩

theorem ready (h : TimedInv tab m x) (hontime : ∀ c < CFG_MAX_CPU, ∀ t, IsDue x c t →
    OnTime x c t ∧ x.lastTimedThread c ≠ some (x.runningThread c)) : TickReady tab m x :=
  ⟨h.ordered, h.waits, h.apart, h.waiting, hontime⟩

/-- A tick at which all are on time. -/
theorem tick (h : TimedInv tab m x) (hontime : ∀ c < CFG_MAX_CPU, ∀ t, IsDue x c t →
    OnTime x c t ∧ x.lastTimedThread c ≠ some (x.runningThread c)) :
    ∃ y, timedTimeDeal x = some y ∧ TimedInv tab (entriesAfter x m) y := by
  obtain ⟨d, hdeal, hdealt⟩ := timedTimeDeal_dealt (h.ready hontime)
  refine ⟨_, hdeal, ?_⟩
  have hqueue : ∀ c, c < CFG_MAX_CPU → QueueDealt c tab m x d.state := by
    intro c hc
    have hc : c < 2 := hc
    refine hdealt.queue c ?_
    rw [List.mem_cons, List.mem_singleton]
    omega
  have hother : ∀ c, ¬ c < CFG_MAX_CPU → d.state.timedTimeQueue c = x.timedTimeQueue c := by
    intro c hc
    have hc : ¬ c < 2 := hc
    refine (hdealt.others c ?_).1
    rw [List.mem_cons, List.mem_singleton]
    omega
  have hkeys : ∀ c t, t ∈ Lib.keys (d.state.timedTimeQueue c) ↔ t ∈ Lib.keys (x.timedTimeQueue c) := by
    intro c t
    by_cases hc : c < CFG_MAX_CPU
    · exact (hqueue c hc).keys_iff t
    · rw [hother c hc]
  constructor
  case ordered =>
    intro c
    by_cases hc : c < CFG_MAX_CPU
    · exact (hqueue c hc).ordered
    · exact (hother c hc).symm ▸ h.ordered c
  case waits =>
    intro c
    by_cases hc : c < CFG_MAX_CPU
    · exact (hqueue c hc).waits
    · exact (hother c hc).symm ▸ h.waits c
  case apart => exact fun c c' t ht ht' => h.apart c c' t ((hkeys c t).mp ht) ((hkeys c' t).mp ht')
  case queued =>
    intro c t ht
    obtain ⟨hc, hcreated⟩ := h.queued c t ((hkeys c t).mp ht)
    exact ⟨hc, hdealt.created.symm ▸ hcreated⟩
  case created =>
    intro t b hb
    obtain ⟨c, hc⟩ := h.created t b (hdealt.created ▸ hb)
    exact ⟨c, (hkeys c t).mpr hc⟩
  case waiting =>
    intro c t ht
    have hin := (hkeys c t).mp ht
    rw [h.entriesAfter_eq hin]
    exact ((hqueue c (h.queued c t hin).1).waiting t hin).congr rfl rfl
  case expiry =>
    intro c t b ht hb
    have hin := (hkeys c t).mp ht
    have hb : x.created t = some b := hdealt.created ▸ hb
    have hexp := (hqueue c (h.queued c t hin).1).expiry_eq t hin
    show Lib.expiry (d.state.timedTimeQueue c) t =
      (b : Int) + (tab t).instant (entriesAfter x m t) - ((x.now + 1 : Nat) : Int)
    rw [hexp, h.entriesAfter_eq hin, entryAfter, h.expiry c t b hin hb]
    split <;> omega
  case past =>
    intro t b hb
    have hb : x.created t = some b := hdealt.created ▸ hb
    obtain ⟨hle, hnow, hpast⟩ := h.past t b hb
    have hiff := h.taken_iff_instant hb
    show b ≤ x.now + 1 ∧ x.now + 1 < _ ∧ ∀ j < _, _ ≤ x.now + 1
    unfold entriesAfter
    by_cases htaken : Taken x t
    · have hnext : (tab t).instant (m t) < (tab t).instant (m t + 1) := Timetable.instant_lt_succ _
      have heq := hiff.mp htaken
      rw [if_pos htaken]
      refine ⟨Nat.le_succ_of_le hle, by omega, fun j hj => ?_⟩
      rcases Nat.lt_or_eq_of_le (Nat.le_of_lt_succ hj) with hlt | rfl
      · exact Nat.le_succ_of_le (hpast j hlt)
      · exact heq.symm.le
    · have hne : x.now + 1 ≠ b + (tab t).instant (m t) := fun he => htaken (hiff.mpr he)
      rw [if_neg htaken]
      exact ⟨Nat.le_succ_of_le hle, by omega, fun j hj => Nat.le_succ_of_le (hpast j hj)⟩
  case ticks =>
    show (x.now + 1) :: x.log.map Prod.fst = _
    rw [h.ticks, List.range'_concat, List.reverse_append]
    simp [Nat.add_comm]
  case log =>
    intro n es hin
    rcases List.mem_cons.mp hin with heq | hin
    · cases heq
      refine ⟨Nat.le_refl _, fun t k => ?_⟩
      rw [h.deliveredAt hdealt t k]
      exact hdealt.created.symm ▸ Iff.rfl
    · obtain ⟨hle, hdel⟩ := h.log n es hin
      exact ⟨Nat.le_succ_of_le hle, fun t k => (hdel t k).trans (hdealt.created.symm ▸ Iff.rfl)⟩

end TimedInv

/-! ### A new thread -/

section Create
variable {tab : T → Timetable} {m : T → Nat} {x : TimedState T} {thread : T}
  {policyData : TimedPolicyData}

/-- The timetable of a table. -/
def TimedPolicyData.Steady.timetable (h : policyData.Steady) : Timetable where
  entries := tableTicks policyData.startTime
  nonempty := by
    rw [tableTicks, List.length_map, h.size]
    exact Nat.mul_pos h.runs (Nat.succ_pos _)
  sorted := h.sorted
  pos := h.pos

/-- `private_data` of a new thread. -/
def newTimedData (policyData : TimedPolicyData) : TimedPrivateData :=
  { startTime := policyData.startTime
    sectionNum := policyData.sectionNum
    frequency := policyData.frequency
    sectn := 1
    runNum := 1 }

theorem TimedPolicyData.Steady.placed (h : policyData.Steady) :
    Placed (newTimedData policyData) h.timetable 0 where
  entries := rfl
  size := by
    show (tableTicks policyData.startTime).length = _
    rw [tableTicks, List.length_map]
    exact h.size
  frequency := h.frequency
  sectionNum := h.sectionNum
  sectn := ⟨Nat.le_refl _, Nat.succ_le_succ (Nat.zero_le _)⟩
  runNum := ⟨Nat.le_refl _, h.runs⟩
  place := by
    show (1 - 1) * _ + (1 - 1) = 0
    omega

/-- The new thread is queued for its first entry. -/
theorem timedPolicyThreadInit_eq (h : policyData.Steady) (x : TimedState T) (thread : T) :
    ∃ time cpu, cpu < CFG_MAX_CPU ∧ time.toNat = h.timetable.entry 0 ∧
      timedPolicyThreadInit x thread policyData = some
        { x with
          sched := (acoralRdyThread (x.sched.thread thread).cpu x.sched thread).2
          timedTimeQueue := Function.update x.timedTimeQueue cpu
            (acoralTickQueueAdd (x.timedTimeQueue cpu) thread (h.timetable.entry 0 : Nat))
          time := Function.update x.time thread time
          privateData := Function.update x.privateData thread (newTimedData policyData)
          ipc := Function.update x.ipc thread none
          created := Function.update x.created thread (some x.now) } := by
  have hzero : (0 : BitVec 32).toNat ≤ h.timetable.entry 0 := Nat.zero_le _
  obtain ⟨time, hreload, htime⟩ := h.placed.reload hzero
  have hreload : timedStartTimeReload (newTimedData policyData) 0 =
      some (time, ((h.timetable.entry 0 : Nat) : Int)) := by
    rw [hreload]
    exact congrArg (fun tick => some (time, tick)) (Int.sub_zero _)
  refine ⟨time, min policyData.cpu (CFG_MAX_CPU - 1), ?_, htime, ?_⟩
  · have hle := Nat.min_le_right policyData.cpu (CFG_MAX_CPU - 1)
    exact Nat.lt_of_le_of_lt hle (by decide)
  · show Option.map _ (timedStartTimeReload (newTimedData policyData) 0) = _
    rw [hreload]
    rfl

theorem TimedInv.create (h : TimedInv tab m x) (hp : policyData.Steady)
    (hnone : x.created thread = none) :
    ∃ y, timedPolicyThreadInit x thread policyData = some y ∧
      TimedInv (Function.update tab thread hp.timetable) (Function.update m thread 0) y := by
  obtain ⟨time, cpu, hcpu, htime, hinit⟩ := timedPolicyThreadInit_eq hp x thread
  refine ⟨_, hinit, ?_⟩
  have hfirst : 0 < hp.timetable.entry 0 := Timetable.entry_pos hp.timetable.size_pos
  have hnew : ∀ c, thread ∉ keys (x.timedTimeQueue c) := by
    intro c hin
    have hsome := (h.queued c thread hin).2
    rw [hnone] at hsome
    cases hsome
  have hkeys : ∀ c t, t ∈ keys (Function.update x.timedTimeQueue cpu
      (acoralTickQueueAdd (x.timedTimeQueue cpu) thread (hp.timetable.entry 0 : Nat)) c) ↔
        (t = thread ∧ c = cpu) ∨ t ∈ keys (x.timedTimeQueue c) := by
    intro c t
    by_cases hc : c = cpu
    · subst hc
      rw [Function.update_self, (keys_acoralTickQueueAdd _ _ _).mem_iff, List.mem_cons]
      simp
    · rw [Function.update_of_ne hc]
      simp [hc]
  have hold : ∀ {t b}, t ≠ thread → Function.update x.created thread (some x.now) t = some b →
      x.created t = some b := by
    intro t b ht hb
    rwa [Function.update_of_ne ht] at hb
  have hself : ∀ {b}, Function.update x.created thread (some x.now) thread = some b → b = x.now := by
    intro b hb
    rw [Function.update_self] at hb
    exact (Option.some.inj hb).symm
  constructor
  case ordered =>
    intro c
    by_cases hc : c = cpu
    · subst hc
      show Ordered (Function.update x.timedTimeQueue c _ c)
      rw [Function.update_self]
      exact ordered_acoralTickQueueAdd (h.ordered c) (hnew c) (Int.natCast_nonneg _)
    · show Ordered (Function.update x.timedTimeQueue cpu _ c)
      rw [Function.update_of_ne hc]
      exact h.ordered c
  case waits =>
    intro c
    have hre : Rearms fun _ : T => some ((hp.timetable.entry 0 : Nat) : Int) :=
      fun _ tick htick => by cases htick; exact Int.natCast_pos.mpr hfirst
    by_cases hc : c = cpu
    · subst hc
      show HeadWaits (Function.update x.timedTimeQueue c _ c)
      rw [Function.update_self]
      exact headWaits_readd hre (h.waits c) thread
    · show HeadWaits (Function.update x.timedTimeQueue cpu _ c)
      rw [Function.update_of_ne hc]
      exact h.waits c
  case apart =>
    intro c c' t ht ht'
    rcases (hkeys c t).mp ht with ⟨rfl, rfl⟩ | hin
    · rcases (hkeys c' t).mp ht' with ⟨-, rfl⟩ | hin'
      · rfl
      · exact absurd hin' (hnew c')
    · rcases (hkeys c' t).mp ht' with ⟨rfl, rfl⟩ | hin'
      · exact absurd hin (hnew c)
      · exact h.apart c c' t hin hin'
  case queued =>
    intro c t ht
    rcases (hkeys c t).mp ht with ⟨rfl, rfl⟩ | hin
    · refine ⟨hcpu, ?_⟩
      show (Function.update x.created t (some x.now) t).isSome
      rw [Function.update_self]
      rfl
    · have ht : t ≠ thread := fun he => hnew c (he ▸ hin)
      obtain ⟨hc, hsome⟩ := h.queued c t hin
      refine ⟨hc, ?_⟩
      show (Function.update x.created thread (some x.now) t).isSome
      rw [Function.update_of_ne ht]
      exact hsome
  case created =>
    intro t b hb
    by_cases ht : t = thread
    · exact ⟨cpu, (hkeys cpu t).mpr (Or.inl ⟨ht, rfl⟩)⟩
    · obtain ⟨c, hin⟩ := h.created t b (hold ht hb)
      exact ⟨c, (hkeys c t).mpr (Or.inr hin)⟩
  case waiting =>
    intro c t ht
    rcases (hkeys c t).mp ht with ⟨rfl, rfl⟩ | hin
    · rw [Function.update_self, Function.update_self]
      constructor
      case placed =>
        show Placed (Function.update x.privateData t (newTimedData policyData) t) _ _
        rw [Function.update_self, Nat.zero_mod]
        exact hp.placed
      case time =>
        show (Function.update x.time t time t).toNat = _
        rw [Function.update_self, Nat.zero_mod]
        exact htime
    · have ht : t ≠ thread := fun he => hnew c (he ▸ hin)
      rw [Function.update_of_ne ht, Function.update_of_ne ht]
      refine (h.waiting c t hin).congr ?_ ?_
      · exact Function.update_of_ne ht _ _
      · exact Function.update_of_ne ht _ _
  case expiry =>
    intro c t b ht hb
    rcases (hkeys c t).mp ht with ⟨rfl, rfl⟩ | hin
    · show Lib.expiry (Function.update x.timedTimeQueue c _ c) t = (b : Int) + _ - (x.now : Int)
      rw [Function.update_self, Function.update_self, Function.update_self,
        expiry_acoralTickQueueAdd_self (hnew c), hself hb, Timetable.instant_zero]
      omega
    · have hne : t ≠ thread := fun he => hnew c (he ▸ hin)
      rw [Function.update_of_ne hne, Function.update_of_ne hne]
      have hexp := h.expiry c t b hin (hold hne hb)
      show Lib.expiry (Function.update x.timedTimeQueue cpu _ c) t = _
      by_cases hc : c = cpu
      · subst hc
        rw [Function.update_self, expiry_acoralTickQueueAdd (Ne.symm hne) _ hin]
        exact hexp
      · rw [Function.update_of_ne hc]
        exact hexp
  case past =>
    intro t b hb
    by_cases ht : t = thread
    · subst ht
      rw [Function.update_self, Function.update_self, hself hb]
      exact ⟨Nat.le_refl _, Nat.lt_add_of_pos_right (Timetable.instant_pos 0),
        fun j hj => absurd hj (Nat.not_lt_zero j)⟩
    · rw [Function.update_of_ne ht, Function.update_of_ne ht]
      exact h.past t b (hold ht hb)
  case ticks => exact h.ticks
  case log =>
    intro n es hin
    obtain ⟨hle, hdel⟩ := h.log n es hin
    refine ⟨hle, fun t k => ?_⟩
    rw [hdel t k]
    show _ ↔ ∃ b, Function.update x.created thread (some x.now) t = some b ∧ _
    by_cases ht : t = thread
    · subst ht
      rw [hnone, Function.update_self, Function.update_self]
      -- the thread is younger than all ticks so far
      constructor
      · rintro ⟨b, hb, -⟩
        cases hb
      · rintro ⟨b, hb, j, hj, -⟩
        obtain rfl := Option.some.inj hb
        have hpos : 0 < hp.timetable.instant j := Timetable.instant_pos j
        omega
    · rw [Function.update_of_ne ht, Function.update_of_ne ht]

end Create

/-! ### Runs -/

instance (x : TimedState T) (cpu : Nat) (thread : T) : Decidable (OnTime x cpu thread) :=
  decidable_of_iff (x.runningThread cpu ≠ thread ∧ ((x.ipc thread).isSome ↔
      (x.privateData thread).sectn ≤ (x.privateData thread).sectionNum))
    ⟨fun h => ⟨h.1, h.2⟩, fun h => ⟨h.stopped, h.waits⟩⟩

/-- No section overruns: when a thread is due at the next tick, it is on time,
and the timed thread before it on its CPU does not run any more. -/
def noOverrun (x : TimedState T) : TimedOp T → Bool
  | .tick         =>
      decide (∀ c < CFG_MAX_CPU, ∀ t ∈ keys (x.timedTimeQueue c),
        expiry (x.timedTimeQueue c) t = 1 →
          OnTime x c t ∧ x.lastTimedThread c ≠ some (x.runningThread c))
  | .create _ _   => true
  | .env _ _ _    => true

theorem ontime_of_noOverrun {x : TimedState T} (h : noOverrun x .tick = true) :
    ∀ c < CFG_MAX_CPU, ∀ t, IsDue x c t →
      OnTime x c t ∧ x.lastTimedThread c ≠ some (x.runningThread c) := by
  intro c hc t ht
  exact of_decide_eq_true h c hc t ht.1 ht.2

theorem timedStep_inv {tab : T → Timetable} {m : T → Nat} {x y : TimedState T} {op : TimedOp T}
    (h : TimedInv tab m x) (hop : ∀ t p, op = .create t p → p.Steady)
    (hguard : noOverrun x op = true) (hstep : timedStep x op = some y) :
    ∃ tab' m', TimedInv tab' m' y := by
  cases op with
  | create thread policyData =>
      unfold timedStep at hstep
      dsimp only at hstep
      split at hstep
      case isFalse => cases hstep
      case isTrue hnone =>
      obtain ⟨z, hz, hinv⟩ := h.create (hop thread policyData rfl) (Option.isNone_iff_eq_none.mp hnone)
      cases hz.symm.trans hstep
      exact ⟨_, _, hinv⟩
  | tick =>
      obtain ⟨z, hz, hinv⟩ := h.tick (ontime_of_noOverrun hguard)
      cases hz.symm.trans hstep
      exact ⟨_, _, hinv⟩
  | env sched ipc runningThread =>
      cases hstep
      exact ⟨tab, m, h.env sched ipc runningThread⟩

/-- Place `k` of a table is due at tick `n`, in a thread created at tick `b`. -/
def IsInstant (startTime : List (BitVec 32)) (b n k : Nat) : Prop :=
  k < startTime.length ∧
    ∃ r, n = b + r * hyperPeriod startTime + (tableTicks startTime).getD k 0

/-- Tick `n` delivered place `k` of the table of a thread. -/
def Delivered (x : TimedState T) (n : Nat) (thread : T) (k : Nat) : Prop :=
  ∃ es, (n, es) ∈ x.log ∧ ∃ e ∈ es, TimedEvent.Delivers e thread k

theorem isInstant_iff {data : TimedPrivateData} {tab : Timetable} {place : Nat}
    (h : Placed data tab place) (b n k : Nat) :
    (∃ j, n = b + tab.instant j ∧ k = j % tab.size) ↔ IsInstant data.startTime b n k := by
  have hsize : tab.size = data.startTime.length := by
    rw [Timetable.size, h.entries, tableTicks, List.length_map]
  have hround : tab.round = hyperPeriod data.startTime := by
    rw [Timetable.round, Timetable.entry, Timetable.size, h.entries, hyperPeriod,
      List.getD_eq_getElem?_getD, ← List.getLast?_eq_getElem?, List.getLastD_eq_getLast?]
  unfold IsInstant
  rw [← hsize, ← hround, ← h.entries]
  constructor
  · rintro ⟨j, rfl, rfl⟩
    exact ⟨Nat.mod_lt _ tab.size_pos, j / tab.size, (Nat.add_assoc _ _ _).symm⟩
  · rintro ⟨hk, r, rfl⟩
    refine ⟨r * tab.size + k, ?_, ?_⟩
    · rw [Timetable.instant_add r hk, Nat.add_assoc]
      rfl
    · rw [Nat.mul_comm, Nat.mul_add_mod, Nat.mod_eq_of_lt hk]

/-- A tick delivers a place of a table at its instants, and at no other tick. -/
theorem TimedInv.delivered_iff {tab : T → Timetable} {m : T → Nat} {y : TimedState T}
    (h : TimedInv tab m y) (n : Nat) (t : T) (k : Nat) :
    Delivered y n t k ↔ n ≤ y.now ∧
      ∃ b, y.created t = some b ∧ IsInstant (y.privateData t).startTime b n k := by
  have hiff : ∀ b, y.created t = some b →
      ((∃ j, n = b + (tab t).instant j ∧ k = j % (tab t).size) ↔
        IsInstant (y.privateData t).startTime b n k) := by
    intro b hb
    obtain ⟨c, hc⟩ := h.created t b hb
    exact isInstant_iff (h.waiting c t hc).placed b n k
  constructor
  · rintro ⟨es, hin, hdel⟩
    obtain ⟨hle, hat⟩ := h.log n es hin
    obtain ⟨b, hb, hj⟩ := (hat t k).mp hdel
    exact ⟨hle, b, hb, (hiff b hb).mp hj⟩
  · rintro ⟨hle, b, hb, hn⟩
    obtain ⟨j, hj, hk⟩ := (hiff b hb).mpr hn
    have hpos : 0 < (tab t).instant j := Timetable.instant_pos j
    have hmem : n ∈ y.log.map Prod.fst := by
      rw [h.ticks, List.mem_reverse, List.mem_range'_1]
      omega
    obtain ⟨⟨n', es⟩, hin, rfl⟩ := List.mem_map.mp hmem
    exact ⟨es, hin, ((h.log n' es hin).2 t k).mpr ⟨b, hb, j, hj, hk⟩⟩

/-- The instants of a place are one hyperperiod apart. -/
theorem IsInstant.next {startTime : List (BitVec 32)} {b n k : Nat}
    (h : IsInstant startTime b n k) :
    IsInstant startTime b (n + hyperPeriod startTime) k ∧
      ∀ n', n < n' → n' < n + hyperPeriod startTime → ¬ IsInstant startTime b n' k := by
  obtain ⟨hk, r, rfl⟩ := h
  refine ⟨⟨hk, r + 1, by rw [Nat.add_mul]; omega⟩, fun n' hlt hlt' hinst => ?_⟩
  obtain ⟨-, r', rfl⟩ := hinst
  have hmore : r * hyperPeriod startTime < r' * hyperPeriod startTime := by omega
  have hless : r' * hyperPeriod startTime < (r + 1) * hyperPeriod startTime := by
    rw [Nat.add_mul]
    omega
  have hr : r < r' := Nat.lt_of_mul_lt_mul_right hmore
  have hr' : r' < r + 1 := Nat.lt_of_mul_lt_mul_right hless
  omega

/-- Take any run in which no section overruns and the tables go up strictly, in
ticks, from above zero. Each tick has delivered the places whose instant it was.
So every place is delivered again one hyperperiod later, and not before. The
next tick returns as well. -/
theorem timed_exact {x y : TimedState T} {ops : List (TimedOp T)} (hx : x.Fresh)
    (hops : ∀ t p, .create t p ∈ ops → p.Steady)
    (hrun : run (guarded noOverrun timedStep) x ops = some y) :
    (∀ n t k, Delivered y n t k ↔ n ≤ y.now ∧
      ∃ b, y.created t = some b ∧ IsInstant (y.privateData t).startTime b n k) ∧
    (∀ n t k, Delivered y n t k → n + hyperPeriod (y.privateData t).startTime ≤ y.now →
      Delivered y (n + hyperPeriod (y.privateData t).startTime) t k ∧
        ∀ n', n < n' → n' < n + hyperPeriod (y.privateData t).startTime →
          ¬ Delivered y n' t k) ∧
    (noOverrun y .tick = true → (timedStep y .tick).isSome) := by
  let tab : T → Timetable := fun _ => ⟨[1], by decide, by decide, by decide⟩
  have hinv : ∃ tab m, TimedInv tab m y := by
    refine Lib.guarded_induct_mem (P := fun s => ∃ tab m, TimedInv tab m s) ?_
      ⟨tab, _, hx.inv tab⟩ hrun
    rintro s op s' hin ⟨_, _, hs⟩ hguard hstep
    exact timedStep_inv hs (fun t p he => hops t p (he ▸ hin)) hguard hstep
  obtain ⟨tab, m, hinv⟩ := hinv
  refine ⟨hinv.delivered_iff, fun n t k hdel hle => ?_, fun hguard => ?_⟩
  · obtain ⟨-, b, hb, hinst⟩ := (hinv.delivered_iff n t k).mp hdel
    obtain ⟨hnext, hbetween⟩ := hinst.next
    refine ⟨(hinv.delivered_iff _ t k).mpr ⟨hle, b, hb, hnext⟩, fun n' hlt hlt' hdel' => ?_⟩
    obtain ⟨-, b', hb', hinst'⟩ := (hinv.delivered_iff n' t k).mp hdel'
    obtain rfl := Option.some.inj (hb.symm.trans hb')
    exact hbetween n' hlt hlt' hinst'
  · obtain ⟨z, hz, -⟩ := hinv.tick (ontime_of_noOverrun hguard)
    exact Option.isSome_iff_exists.mpr ⟨z, hz⟩

/-! ### Two timed threads -/

/-- No timed thread so far. Thread 2 runs on both CPUs. -/
def noTimed : TimedState (Fin 3) where
  sched := acoralSchedRdyqueueInit fun t =>
    { resId := 0, state := ACORAL_THREAD_STATE_SUSPEND, prio := t.val + 3, cpu := 0 }
  timedTimeQueue := fun _ => []
  time := fun _ => 0
  privateData := fun _ => { startTime := [], sectionNum := 0, frequency := 0, sectn := 0, runNum := 0 }
  ipc := fun _ => none
  lastTimedThread := fun _ => none
  runningThread := fun _ => 2
  now := 0
  created := fun _ => none
  log := []

/-- The threads of a list come to their first section. -/
def waitsIn (threads : List (Fin 3)) : TimedOp (Fin 3) :=
  .env noTimed.sched (fun t => if t ∈ threads then some (.sectionSem 0) else none) fun _ => 2

/-- Thread 0 starts at 2 and thread 1, on the other CPU, at 1, and both have a
hyperperiod of 4. -/
def twoTimedRun : List (TimedOp (Fin 3)) :=
  [.create 0 ⟨0, [2, 4], 1, 1⟩, .create 1 ⟨1, [1, 4], 1, 1⟩, waitsIn [0, 1], .tick,
    waitsIn [0], .tick, waitsIn [], .tick, .tick, waitsIn [0, 1], .tick, waitsIn [0], .tick]

theorem timed_exact_two :
    ∃ y, run (guarded noOverrun timedStep) noTimed twoTimedRun = some y ∧
      y.log = [(6, [.post 0 0]), (5, [.post 1 0]), (4, [.restart 0 1, .restart 1 1]), (3, []),
        (2, [.post 0 0]), (1, [.post 1 0])] ∧
      (∀ n t k, Delivered y n t k ↔ n ≤ y.now ∧
        ∃ b, y.created t = some b ∧ IsInstant (y.privateData t).startTime b n k) ∧
      (∀ n t k, Delivered y n t k → n + hyperPeriod (y.privateData t).startTime ≤ y.now →
        Delivered y (n + hyperPeriod (y.privateData t).startTime) t k ∧
          ∀ n', n < n' → n' < n + hyperPeriod (y.privateData t).startTime →
            ¬ Delivered y n' t k) ∧
      (noOverrun y .tick = true → (timedStep y .tick).isSome) := by
  have heval : (run (guarded noOverrun timedStep) noTimed twoTimedRun).any (fun y =>
      decide (y.log = [(6, [.post 0 0]), (5, [.post 1 0]), (4, [.restart 0 1, .restart 1 1]),
        (3, []), (2, [.post 0 0]), (1, [.post 1 0])])) = true := by
    decide +kernel
  obtain ⟨y, hrun, hy⟩ := (Option.any_eq_true ..).mp heval
  have hfresh : noTimed.Fresh := ⟨fun _ => rfl, fun _ => rfl, rfl, rfl⟩
  have hops : ∀ t p, .create t p ∈ twoTimedRun → p.Steady := by
    intro t p hin
    simp only [twoTimedRun, waitsIn, List.mem_cons, TimedOp.create.injEq, reduceCtorEq,
      List.not_mem_nil, or_false] at hin
    rcases hin with ⟨-, rfl⟩ | ⟨-, rfl⟩
    · exact ⟨by decide, by decide, by decide, by decide, by decide, by decide⟩
    · exact ⟨by decide, by decide, by decide, by decide, by decide, by decide⟩
  exact ⟨y, hrun, of_decide_eq_true hy, timed_exact hfresh hops hrun⟩

/-- A thread that starts at 0, as the first demonstration thread does, with a
hyperperiod of 4. -/
def zeroStartRun : List (TimedOp (Fin 3)) :=
  [.create 0 ⟨0, [0, 4], 1, 1⟩, waitsIn [0], .tick, waitsIn [], .tick, .tick, .tick, .tick]

/-- Its first place is delivered at tick 1, and not at tick 5. -/
theorem zero_start_drifts :
    ∃ y, run (guarded noOverrun timedStep) noTimed zeroStartRun = some y ∧
      (tableTicks (y.privateData 0).startTime).Pairwise (· ≤ ·) ∧
      hyperPeriod (y.privateData 0).startTime = 4 ∧ Delivered y 1 0 0 ∧ 1 + 4 ≤ y.now ∧
      ¬ Delivered y (1 + 4) 0 0 := by
  have heval : (run (guarded noOverrun timedStep) noTimed zeroStartRun).any (fun y =>
      decide (y.log = [(5, [.restart 0 1]), (4, []), (3, []), (2, []), (1, [.post 0 0])] ∧
        (y.privateData 0).startTime = [0, 4] ∧ y.now = 5)) = true := by
    decide +kernel
  obtain ⟨y, hrun, hy⟩ := (Option.any_eq_true ..).mp heval
  obtain ⟨hlog, htable, hnow⟩ := of_decide_eq_true hy
  refine ⟨y, hrun, ?_, ?_, ⟨[.post 0 0], ?_, .post 0 0, ?_, Or.inl rfl⟩, hnow.ge, ?_⟩
  · rw [htable]
    decide
  · rw [htable]
    decide
  · rw [hlog]
    simp
  · exact List.mem_cons_self
  · rintro ⟨es, hin, e, he, hdel⟩
    rw [hlog] at hin
    obtain rfl : es = [.restart 0 1] := by simpa using hin
    obtain rfl := List.mem_singleton.mp he
    rcases hdel with hdel | hdel <;> cases hdel

end ACoral
