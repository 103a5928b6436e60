import ACoral.Kernel.TimedTable
import ACoral.Proofs.TimedDecode
import ACoral.Proofs.TimedOverrun

/-!
# `ACoral.Proofs.TimedTable`: the start times are read and written inside

A table is allocated for `start_time_cnt` entries, a product of the counts that
is kept in 8 bits. What is written depends on the product itself, and in
`timed_decode_without_fs` also on the number of sections alone. The counts of
`timed_start_time_reload` have 8 bits as well, so that a thread of 255 runs
comes to run 0.

* `writes_inside_iff`, `fileWrites_inside_iff`: the counts for which a decoder
  writes inside.
* `Counts.offset_lt` of `ACoral.Proofs.TimedThrd` is the bound of a read. The
  invariant is that every thread that was created has its counts, and a table for
  them.
* `tableAccesses_inside`: every access of every run.
* `startTimes_inside_iff`: no other counts will do.
-/

set_option autoImplicit false

namespace ACoral

open Lib (keys run)

variable {T : Type} [DecidableEq T]

/-! ### What the decoders write -/

/-- The product of the counts fits into `start_time_cnt`. -/
def CntFits (frequency sectionNum : BitVec 8) : Prop :=
  frequency.toNat * (sectionNum.toNat + 1) < 256

theorem toNat_startTimeCnt (frequency sectionNum : BitVec 8) :
    (startTimeCnt frequency sectionNum).toNat =
      frequency.toNat * (sectionNum.toNat + 1) % 256 := by
  rw [startTimeCnt, BitVec.toNat_mul, BitVec.toNat_add]
  exact Nat.mul_mod_mod _ _ _

theorem CntFits.toNat {frequency sectionNum : BitVec 8} (h : CntFits frequency sectionNum) :
    (startTimeCnt frequency sectionNum).toNat = frequency.toNat * (sectionNum.toNat + 1) := by
  rw [toNat_startTimeCnt, Nat.mod_eq_of_lt h]

/-- The end of the last run is inside if the product fits. -/
theorem closing_inside_iff {frequency sectionNum : BitVec 8} (hpos : 0 < frequency.toNat) :
    (sectionNum.toNat + 1) * (frequency.toNat - 1 + 1) - 1 <
        (startTimeCnt frequency sectionNum).toNat ↔ CntFits frequency sectionNum := by
  have hprod : 0 < frequency.toNat * (sectionNum.toNat + 1) := Nat.mul_pos hpos (Nat.succ_pos _)
  rw [Nat.sub_add_cancel hpos, Nat.mul_comm]
  constructor
  · intro h
    have hlt := (startTimeCnt frequency sectionNum).isLt
    unfold CntFits
    omega
  · intro h
    rw [h.toNat]
    omega

/-- A place of a run is inside if the product fits. -/
theorem place_inside {frequency sectionNum : BitVec 8} (hfit : CntFits frequency sectionNum) {i j : Nat}
    (hj : j < frequency.toNat) (hi : i < (sectionNum.toNat + 1) * (j + 1)) :
    i < (startTimeCnt frequency sectionNum).toNat := by
  rw [hfit.toNat, Nat.mul_comm]
  exact lt_of_lt_of_le hi (Nat.mul_le_mul_left _ hj)

/-- `timed_decode_without_fs` writes inside, if at all, when the product fits and there
are no more sections than runs. -/
theorem writes_inside_iff (cfg : TimedThreadConfig) (memory : Nat → BitVec 32) :
    (∀ i ∈ (startTable cfg memory cfg.frequency.toNat).written,
        i < (startTimeCnt cfg.frequency cfg.sectionNum).toNat) ↔
      cfg.frequency = 0 ∨
        (CntFits cfg.frequency cfg.sectionNum ∧ cfg.sectionNum ≤ cfg.frequency) := by
  constructor
  · intro h
    by_cases hzero : cfg.frequency = 0
    · exact Or.inl hzero
    have hpos : 0 < cfg.frequency.toNat :=
      Nat.pos_of_ne_zero fun he => hzero (BitVec.eq_of_toNat_eq he)
    have hlast : cfg.frequency.toNat - 1 < cfg.frequency.toNat := Nat.sub_one_lt_of_lt hpos
    have hfit := (closing_inside_iff hpos).mp (h _ (mem_written_startTable.mpr ⟨_, hlast, Or.inr rfl⟩))
    refine Or.inr ⟨hfit, ?_⟩
    show cfg.sectionNum.toNat ≤ cfg.frequency.toNat
    by_cases hsec : cfg.sectionNum.toNat = 0
    · omega
    · -- the last place of the inner loop
      have hk : cfg.sectionNum.toNat - 1 < cfg.sectionNum.toNat := by omega
      have hin := h _ (mem_written_startTable.mpr ⟨_, hlast, Or.inl ⟨_, hk, rfl⟩⟩)
      rw [hfit.toNat, Nat.mul_comm cfg.frequency.toNat] at hin
      have hlt := Nat.lt_of_mul_lt_mul_left hin
      omega
  · rintro (hzero | ⟨hfit, hle⟩) i hi
    · rw [mem_written_startTable, hzero] at hi
      obtain ⟨j, hj, -⟩ := hi
      cases hj
    · have hle : cfg.sectionNum.toNat ≤ cfg.frequency.toNat := hle
      obtain ⟨j, hj, ⟨k, hk, rfl⟩ | rfl⟩ := mem_written_startTable.mp hi
      · exact place_inside hfit (show k < _ by omega)
          (Nat.mul_lt_mul_of_pos_left (Nat.lt_succ_self k) (Nat.succ_pos _))
      · exact place_inside hfit hj
          (Nat.sub_one_lt_of_lt (Nat.mul_pos (Nat.succ_pos _) (Nat.succ_pos j)))

theorem written_readStarts (table : StartTable) (i : Nat) (words : List (BitVec 32)) :
    (readStarts table i words).written =
      table.written ++ (List.range words.length).map fun j => i + j := by
  have hfold : (readStarts table i words).written =
      table.written ++ words.zipIdx.flatMap fun word => [i + word.2] :=
    StartTable.written_foldl (fun _ _ => rfl) _
  have hsnd : words.zipIdx.map Prod.snd = List.range words.length := by
    rw [List.zipIdx_map_snd, List.range_eq_range']
  rw [hfold, ← hsnd, List.map_map, ← List.map_eq_flatMap]
  rfl

theorem mem_written_fileStartTable {file : TimedFileThread} {memory : Nat → BitVec 32} {runs i : Nat} :
    i ∈ (fileStartTable file memory runs).written ↔
      ∃ k < runs, (∃ j < (file.startTime k).length, i = (file.sectionNum.toNat + 1) * k + j) ∨
        i = (file.sectionNum.toNat + 1) * (k + 1) - 1 := by
  have hwritten : (fileStartTable file memory runs).written = (List.range runs).flatMap fun k =>
      ((List.range (file.startTime k).length).map fun j => (file.sectionNum.toNat + 1) * k + j) ++
        [(file.sectionNum.toNat + 1) * (k + 1) - 1] := by
    refine (StartTable.written_foldl (fun table k => ?_) _).trans (List.nil_append _)
    show (readStarts table _ (file.startTime k)).written ++ _ = _
    rw [written_readStarts, List.append_assoc]
  rw [hwritten]
  simp [eq_comm]

/-- `timed_decode` writes inside, if at all, when the product fits. -/
theorem fileWrites_inside_iff (file : TimedFileThread) (memory : Nat → BitVec 32) :
    (∀ i ∈ (fileStartTable file memory file.frequency.toNat).written,
        i < (startTimeCnt file.frequency file.sectionNum).toNat) ↔
      file.frequency = 0 ∨ CntFits file.frequency file.sectionNum := by
  constructor
  · intro h
    by_cases hzero : file.frequency = 0
    · exact Or.inl hzero
    have hpos : 0 < file.frequency.toNat :=
      Nat.pos_of_ne_zero fun he => hzero (BitVec.eq_of_toNat_eq he)
    have hlast : file.frequency.toNat - 1 < file.frequency.toNat := Nat.sub_one_lt_of_lt hpos
    exact Or.inr ((closing_inside_iff hpos).mp
      (h _ (mem_written_fileStartTable.mpr ⟨_, hlast, Or.inr rfl⟩)))
  · rintro (hzero | hfit) i hi
    · rw [mem_written_fileStartTable, hzero] at hi
      obtain ⟨k, hk, -⟩ := hi
      cases hk
    · obtain ⟨k, hk, ⟨j, hj, rfl⟩ | rfl⟩ := mem_written_fileStartTable.mp hi
      · have hle := file.startTime_le k
        refine place_inside hfit hk ?_
        rw [Nat.mul_succ]
        omega
      · exact place_inside hfit hk
          (Nat.sub_one_lt_of_lt (Nat.mul_pos (Nat.succ_pos _) (Nat.succ_pos k)))

/-! ### What is read -/

/-- The counts of a thread, and a table for all of them. -/
structure Tabled (data : TimedPrivateData) : Prop where
  counts : Counts data
  size : data.startTime.length = data.frequency.toNat * (data.sectionNum.toNat + 1)

namespace Tabled

variable {data : TimedPrivateData}

theorem inside (h : Tabled data) : (reloadAccess data).Inside := by
  show data.offset.toNat < data.startTime.length
  rw [h.size]
  exact h.counts.offset_lt

/-- What the tick handler sets when the thread still runs. -/
theorem overrun (h : Tabled data) : Tabled { data with sectn := data.sectionNum + 1 } := by
  have hn := h.counts.sectionNum
  refine ⟨⟨h.counts.frequency, hn, ?_, h.counts.runNum⟩, h.size⟩
  show 1 ≤ (data.sectionNum + 1).toNat ∧ (data.sectionNum + 1).toNat ≤ _
  rw [toNat_add_one hn]
  exact ⟨Nat.succ_le_succ (Nat.zero_le _), Nat.le_refl _⟩

end Tabled

/-- A new thread of a table that was allocated for its counts. -/
theorem newTimedData_tabled {policyData : TimedPolicyData}
    (hsize : policyData.startTime.length =
      (startTimeCnt policyData.frequency policyData.sectionNum).toNat)
    (hfit : CntFits policyData.frequency policyData.sectionNum)
    (hpos : policyData.frequency ≠ 0) (hmax : policyData.frequency ≠ 255) :
    Tabled (newTimedData policyData) := by
  have hruns : 0 < policyData.frequency.toNat :=
    Nat.pos_of_ne_zero fun he => hpos (BitVec.eq_of_toNat_eq he)
  have hless : policyData.frequency.toNat ≠ 255 := fun he => hmax (BitVec.eq_of_toNat_eq he)
  have hlt := policyData.frequency.isLt
  have hsections : policyData.sectionNum.toNat + 1 < 256 := by
    have hle := Nat.mul_le_mul_right (policyData.sectionNum.toNat + 1) hruns
    rw [Nat.succ_eq_add_one, Nat.zero_add, Nat.one_mul] at hle
    exact lt_of_le_of_lt hle hfit
  refine ⟨⟨?_, ?_, ⟨Nat.le_refl _, Nat.succ_le_succ (Nat.zero_le _)⟩, Nat.le_refl _, hruns⟩, ?_⟩
  · show policyData.frequency.toNat < 255
    omega
  · show policyData.sectionNum.toNat < 255
    omega
  · exact hsize.trans hfit.toNat

/-! ### The tick handler -/

/-- Every thread that was created has its counts and its table, and only these are
queued. The tick handler creates none, so `created` is what it was before. -/
structure AllTabled (created : T → Option Nat) (x : TimedState T) : Prop where
  same : x.created = created
  data : ∀ t, (created t).isSome → Tabled (x.privateData t)
  queued : ∀ cpu, ∀ t ∈ keys (x.timedTimeQueue cpu), (created t).isSome

namespace AllTabled

variable {created : T → Option Nat} {x y : TimedState T} {d : TimedDeal T} {thread : T}

/-- A step that leaves the queues and sets the data of one thread. -/
theorem setData (h : AllTabled created x) (hcreated : y.created = x.created)
    (hqueue : y.timedTimeQueue = x.timedTimeQueue) {data : TimedPrivateData}
    (hdata : y.privateData = Function.update x.privateData thread data)
    (htabled : (created thread).isSome → Tabled data) : AllTabled created y where
  same := hcreated.trans h.same
  data := by
    intro t ht
    rw [hdata]
    by_cases he : t = thread
    · rw [he, Function.update_self]
      exact htabled (he ▸ ht)
    · rw [Function.update_of_ne he]
      exact h.data t ht
  queued := by
    rw [hqueue]
    exact h.queued

theorem stop (h : AllTabled created d.state) (cpu : Nat) : AllTabled created (timedStop cpu d).state := by
  unfold timedStop
  split
  · exact h.setData rfl rfl rfl fun ht => (h.data _ ht).overrun
  · exact h

theorem due (h : AllTabled created d.state) (thread : T) :
    AllTabled created (timedDue d thread).state := by
  unfold timedDue
  split
  · split
    · rename_i hsect
      exact h.setData rfl rfl rfl fun ht =>
        ⟨(h.data _ ht).counts.nextSection hsect, (h.data _ ht).size⟩
    · exact h
  · split
    · exact h
    · refine h.setData rfl rfl rfl fun ht => ?_
      have hnext := (h.data _ ht).counts.nextRun
      exact ⟨by simpa using hnext, (h.data _ ht).size⟩

/-- One thread that is due: the read, and what the body leaves. -/
theorem pop (h : AllTabled created d.state) (cpu : Nat) (hthread : (created thread).isSome) :
    (∀ a ∈ popAccesses cpu d thread, a.Inside) ∧
      ∀ d' rearm, timedPop cpu d thread = some (d', rearm) → AllTabled created d'.state := by
  have hlast : AllTabled created ((timedStop cpu d).setLast cpu thread).state :=
    ⟨(h.stop cpu).same, (h.stop cpu).data, (h.stop cpu).queued⟩
  have hdue := hlast.due thread
  constructor
  · intro a ha
    unfold popAccesses at ha
    dsimp only at ha
    split at ha
    · rw [List.mem_singleton.mp ha]
      exact (hdue.data thread hthread).inside
    · cases ha
  · intro d' rearm hpop
    unfold timedPop timedReload at hpop
    split at hpop
    · obtain ⟨⟨time, tick⟩, -, heq⟩ := Option.map_eq_some_iff.mp hpop
      obtain rfl := congrArg Prod.fst heq
      exact ⟨hdue.same, hdue.data, hdue.queued⟩
    · obtain rfl := congrArg Prod.fst (Option.some.inj hpop)
      exact hdue

/-- The loop over the queue of a CPU. The induction is on the rounds. -/
theorem loop (cpu : Nat) (fuel : Nat) (queue : List (T × Int)) (tmp : Option T)
    (h : AllTabled created d.state) (hqueue : ∀ t ∈ keys queue, (created t).isSome)
    (htmp : ∀ t, tmp = some t → (created t).isSome) :
    (∀ a ∈ loopAccesses cpu fuel d queue tmp, a.Inside) ∧
      ∀ d' queue', timedPopLoop cpu fuel d queue tmp = some (d', queue') →
        AllTabled created d'.state ∧ ∀ t ∈ keys queue', (created t).isSome := by
  induction fuel generalizing d queue tmp with
  | zero => exact ⟨fun a ha => absurd ha List.not_mem_nil, fun d' queue' hrun => by cases hrun⟩
  | succ fuel ih =>
      cases tmp with
      | none =>
          refine ⟨fun a ha => absurd ha List.not_mem_nil, fun d' queue' hrun => ?_⟩
          obtain ⟨rfl, rfl⟩ := Prod.mk.inj (Option.some.inj hrun)
          exact ⟨h, hqueue⟩
      | some t =>
          unfold loopAccesses timedPopLoop
          by_cases hwait : nodeValue queue t > 0
          · rw [if_pos hwait, if_pos hwait]
            refine ⟨fun a ha => absurd ha List.not_mem_nil, fun d' queue' hrun => ?_⟩
            obtain ⟨rfl, rfl⟩ := Prod.mk.inj (Option.some.inj hrun)
            exact ⟨h, hqueue⟩
          · rw [if_neg hwait, if_neg hwait]
            have ht := htmp t rfl
            obtain ⟨hinside, hnext⟩ := h.pop cpu ht
            cases hpop : timedPop cpu d t with
            | none =>
                refine ⟨fun a ha => ?_, fun d' queue' hrun => by cases hrun⟩
                rw [Option.elim_none, List.append_nil] at ha
                exact hinside a ha
            | some r =>
                obtain ⟨d₁, rearm⟩ := r
                have hkeys : ∀ u ∈ keys (timedRequeue queue t rearm), (created u).isSome := by
                  intro u hu
                  rcases mem_keys_timedRequeue hu with rfl | hu
                  · exact ht
                  · exact hqueue u hu
                obtain ⟨hrest, hend⟩ := ih _ _ (hnext d₁ rearm hpop) hkeys
                  fun u hu => hqueue u (nodeNext_mem hu)
                refine ⟨fun a ha => ?_, hend⟩
                rcases List.mem_append.mp ha with ha | ha
                · exact hinside a ha
                · exact hrest a ha

theorem cpu (h : AllTabled created d.state) (fuel cpu : Nat) :
    (∀ a ∈ loopAccesses cpu fuel d (tickCountDown (d.state.timedTimeQueue cpu))
        ((tickCountDown (d.state.timedTimeQueue cpu)).head?.map Prod.fst), a.Inside) ∧
      ∀ d', timedCpuDealIn fuel d cpu = some d' → AllTabled created d'.state := by
  have hqueue : ∀ t ∈ keys (tickCountDown (d.state.timedTimeQueue cpu)), (created t).isSome := by
    rw [keys_tickCountDown]
    exact h.queued cpu
  have hhead : ∀ t, (tickCountDown (d.state.timedTimeQueue cpu)).head?.map Prod.fst = some t →
      (created t).isSome := by
    intro t ht
    obtain ⟨node, hnode, rfl⟩ := Option.map_eq_some_iff.mp ht
    exact hqueue _ (List.mem_map_of_mem (List.mem_of_mem_head? hnode))
  obtain ⟨hinside, hend⟩ := h.loop cpu fuel _ _ hqueue hhead
  refine ⟨hinside, fun d' hdeal => ?_⟩
  obtain ⟨⟨d₁, queue'⟩, hloop, rfl⟩ := Option.map_eq_some_iff.mp hdeal
  obtain ⟨h₁, hkeys⟩ := hend d₁ queue' hloop
  refine ⟨h₁.same, h₁.data, fun c t ht => ?_⟩
  by_cases hc : c = cpu
  · rw [hc] at ht
    simp only [Function.update_self] at ht
    exact hkeys t ht
  · simp only [Function.update_of_ne hc] at ht
    exact h₁.queued c t ht

/-- The loop over the CPUs. -/
theorem cpus (fuel : Nat) (cpus : List Nat) (h : AllTabled created d.state) :
    (∀ a ∈ cpusAccesses fuel cpus d, a.Inside) ∧
      ∀ d', cpus.foldlM (timedCpuDealIn fuel) d = some d' → AllTabled created d'.state := by
  induction cpus generalizing d with
  | nil =>
      refine ⟨fun a ha => absurd ha List.not_mem_nil, fun d' hrun => ?_⟩
      obtain rfl : d = d' := Option.some.inj hrun
      exact h
  | cons c cpus ih =>
      obtain ⟨hinside, hnext⟩ := h.cpu fuel c
      unfold cpusAccesses
      cases hdeal : timedCpuDealIn fuel d c with
      | none =>
          constructor
          · intro a ha
            rw [Option.elim_none, List.append_nil] at ha
            exact hinside a ha
          · intro d' hrun
            rw [List.foldlM_cons, hdeal] at hrun
            cases hrun
      | some d₁ =>
          obtain ⟨hrest, hend⟩ := ih (hnext d₁ hdeal)
          constructor
          · intro a ha
            rcases List.mem_append.mp ha with ha | ha
            · exact hinside a ha
            · exact hrest a ha
          · intro d' hrun
            rw [List.foldlM_cons, hdeal] at hrun
            exact hend d' hrun

end AllTabled

/-! ### Steps and runs -/

/-- The counts for which a thread of `timed_decode` has all its accesses inside. -/
def FileFits (frequency sectionNum : BitVec 8) : Prop :=
  frequency ≠ 0 ∧ frequency ≠ 255 ∧ CntFits frequency sectionNum

/-- The counts for which a thread of `timed_decode_without_fs` has. -/
def ConfigFits (frequency sectionNum : BitVec 8) : Prop :=
  FileFits frequency sectionNum ∧ sectionNum ≤ frequency

/-- A thread that is decoded has counts of these kinds. -/
def TableOp.Uses (config file : BitVec 8 → BitVec 8 → Prop) : TableOp T → Prop
  | .decodeWithoutFs _ cfg _ => config cfg.frequency cfg.sectionNum
  | .decode _ file' _        => file file'.frequency file'.sectionNum
  | .tick _                  => True
  | .env _ _ _               => True

section Runs
variable {x y : TimedState T} {op : TableOp T}

theorem StartTable.length_block (table : StartTable) (cnt : BitVec 8) :
    (table.block cnt).length = cnt.toNat := by
  rw [StartTable.block, List.length_map, List.length_range]

/-- A thread is created with its table. -/
theorem AllTabled.create (h : AllTabled x.created x) {thread : T} {policyData : TimedPolicyData}
    (hnew : Tabled (newTimedData policyData))
    (hstep : timedStep x (.create thread policyData) = some y) : AllTabled y.created y := by
  unfold timedStep at hstep
  dsimp only at hstep
  split at hstep
  case isFalse => cases hstep
  obtain ⟨⟨time, tick⟩, -, rfl⟩ := Option.map_eq_some_iff.mp hstep
  have hsome : ∀ t, (x.created t).isSome →
      (Function.update x.created thread (some x.now) t).isSome := by
    intro t ht
    by_cases he : t = thread
    · rw [he, Function.update_self]
      rfl
    · rwa [Function.update_of_ne he]
  refine ⟨rfl, fun t ht => ?_, fun cpu t ht => ?_⟩
  · show Tabled (Function.update x.privateData thread (newTimedData policyData) t)
    by_cases he : t = thread
    · rw [he, Function.update_self]
      exact hnew
    · rw [Function.update_of_ne he]
      have ht : (Function.update x.created thread (some x.now) t).isSome := ht
      rw [Function.update_of_ne he] at ht
      exact h.data t ht
  · show (Function.update x.created thread (some x.now) t).isSome
    by_cases he : t = thread
    · rw [he, Function.update_self]
      rfl
    · refine hsome t ?_
      by_cases hcpu : cpu = min policyData.cpu (CFG_MAX_CPU - 1)
      · rw [hcpu] at ht
        simp only [Function.update_self] at ht
        have hmem := (keys_acoralTickQueueAdd _ thread tick).mem_iff.mp ht
        exact h.queued _ t ((List.mem_cons.mp hmem).resolve_left he)
      · simp only [Function.update_of_ne hcpu] at ht
        exact h.queued cpu t ht

/-- What a step of a decoder accesses, and what it creates. -/
theorem decodeAccesses_inside {table : StartTable} (policyData : TimedPolicyData)
    (hsize : policyData.startTime.length =
      (startTimeCnt policyData.frequency policyData.sectionNum).toNat)
    (hfits : FileFits policyData.frequency policyData.sectionNum)
    (hwritten : ∀ i ∈ table.written,
      i < (startTimeCnt policyData.frequency policyData.sectionNum).toNat) :
    Tabled (newTimedData policyData) ∧ ∀ a ∈ decodeAccesses table policyData, a.Inside := by
  have hnew := newTimedData_tabled hsize hfits.2.2 hfits.1 hfits.2.1
  refine ⟨hnew, fun a ha => ?_⟩
  rcases List.mem_append.mp ha with ha | ha
  · obtain ⟨i, hi, rfl⟩ := List.mem_map.mp ha
    exact hwritten i hi
  · rw [List.mem_singleton.mp ha]
    exact hnew.inside

/-- A step whose counts fit accesses the tables inside and keeps the invariant. -/
theorem tableStep_tabled (h : AllTabled x.created x) (hfits : op.Uses ConfigFits FileFits) :
    (∀ a ∈ tableAccesses x op, a.Inside) ∧
      ∀ y, tableStep x op = some y → AllTabled y.created y := by
  cases op with
  | decodeWithoutFs thread cfg memory =>
      obtain ⟨hfit, hle⟩ := hfits
      obtain ⟨hnew, hinside⟩ := decodeAccesses_inside (configPolicyData cfg memory)
        (StartTable.length_block _ _) hfit
        ((writes_inside_iff cfg memory).mpr (Or.inr ⟨hfit.2.2, hle⟩))
      exact ⟨hinside, fun y hstep => h.create hnew hstep⟩
  | decode thread file memory =>
      obtain ⟨hnew, hinside⟩ := decodeAccesses_inside (filePolicyData file memory)
        (StartTable.length_block _ _) hfits
        ((fileWrites_inside_iff file memory).mpr (Or.inr hfits.2.2))
      exact ⟨hinside, fun y hstep => h.create hnew hstep⟩
  | tick fuel =>
      have hcpus : (∀ a ∈ cpusAccesses fuel (List.range CFG_MAX_CPU) ⟨x, false, []⟩, a.Inside) ∧
          ∀ d', (List.range CFG_MAX_CPU).foldlM (timedCpuDealIn fuel) ⟨x, false, []⟩ = some d' →
            AllTabled x.created d'.state := AllTabled.cpus fuel _ h
      refine ⟨hcpus.1, fun y hstep => ?_⟩
      obtain ⟨d, hdeal, rfl⟩ := Option.map_eq_some_iff.mp hstep
      have hd := hcpus.2 d hdeal
      exact ⟨rfl, fun t ht => hd.data t (hd.same ▸ ht), fun c t ht => hd.same ▸ hd.queued c t ht⟩
  | env sched ipc runningThread =>
      refine ⟨fun a ha => absurd ha List.not_mem_nil, fun y hstep => ?_⟩
      obtain rfl := Option.some.inj hstep
      exact ⟨rfl, h.data, h.queued⟩

/-- In every run in which the counts that are decoded fit, of any number of ticks, the
next step, if its counts fit as well, accesses the tables inside. -/
theorem tableAccesses_inside {ops : List (TableOp T)} (hx : x.Fresh)
    (hops : ∀ op ∈ ops, op.Uses ConfigFits FileFits) (hrun : run tableStep x ops = some y)
    (hop : op.Uses ConfigFits FileFits) :
    ∀ a ∈ tableAccesses y op, a.Inside := by
  have hstart : AllTabled x.created x :=
    ⟨rfl, fun t ht => absurd ht (by rw [hx.created]; decide),
      fun c t ht => absurd ht (by rw [hx.queue]; simp)⟩
  have hend : AllTabled y.created y :=
    Lib.run_induct_mem (P := fun s => AllTabled s.created s)
      (fun s o s' hin hs hstep => (tableStep_tabled hs (hops o hin)).2 s' hstep) hstart hrun
  exact (tableStep_tabled hend hop).1

end Runs

/-! ### The counts that fit -/

/-- In no run of threads with counts of these kinds an access is outside. -/
def RunsInside (config file : BitVec 8 → BitVec 8 → Prop) : Prop :=
  ∀ (T : Type) [DecidableEq T] (x y : TimedState T) (ops : List (TableOp T)) (op : TableOp T),
    x.Fresh → (∀ o ∈ ops, o.Uses config file) → run tableStep x ops = some y →
      op.Uses config file → ∀ a ∈ tableAccesses y op, a.Inside

/-- The place that is read at the creation is the first one. -/
theorem not_inside_of_no_runs (policyData : TimedPolicyData) (table : StartTable)
    (hsize : policyData.startTime.length =
      (startTimeCnt policyData.frequency policyData.sectionNum).toNat)
    (hzero : policyData.frequency = 0) : ∃ a ∈ decodeAccesses table policyData, ¬ a.Inside := by
  refine ⟨_, List.mem_append_right _ List.mem_cons_self, ?_⟩
  show ¬ _ < policyData.startTime.length
  rw [hsize, toNat_startTimeCnt, hzero]
  simp

/-- A configuration with these counts. Its runs are one unit apart. -/
def configOf (frequency sectionNum : BitVec 8) : TimedThreadConfig where
  period := 1
  sectionNum := sectionNum
  frequency := frequency
  cpu := 0
  execTimeSections := List.replicate sectionNum.toNat ⟨1, 0, 0⟩
  elements := by rw [List.length_replicate]

/-- A file with these counts, and no start times. -/
def fileOf (frequency sectionNum : BitVec 8) : TimedFileThread where
  period := 1
  sectionNum := sectionNum
  frequency := frequency
  cpu := 0
  startTime := fun _ => []
  startTime_le := fun _ => Nat.zero_le _

/-- The tick after which run 256 of a thread begins has an access outside. -/
def wraps (op : TableOp (Fin 3)) : Bool :=
  (run tableStep noTimed (op :: List.replicate 254 (.tick 2))).any fun y =>
    (tableAccesses y (.tick 2)).any fun a => !decide a.Inside

section Needed
variable {config file : BitVec 8 → BitVec 8 → Prop} {frequency sectionNum : BitVec 8}

theorem RunsInside.not_wraps (h : RunsInside config file) (op : TableOp (Fin 3))
    (hop : op.Uses config file) : wraps op = false := by
  by_contra hwraps
  obtain ⟨y, hrun, hany⟩ := (Option.any_eq_true ..).mp (eq_true_of_ne_false hwraps)
  obtain ⟨a, ha, hout⟩ := List.any_eq_true.mp hany
  have hops : ∀ o ∈ op :: List.replicate 254 (.tick 2), o.Uses config file := by
    intro o ho
    rcases List.mem_cons.mp ho with rfl | ho
    · exact hop
    · rw [List.eq_of_mem_replicate ho]
      trivial
  have hin := h (Fin 3) noTimed y _ (.tick 2) ⟨fun _ => rfl, fun _ => rfl, rfl, rfl⟩ hops hrun trivial a ha
  simp [hin] at hout

/-- The first step of a run. -/
theorem RunsInside.first (h : RunsInside config file) {op : TableOp (Fin 3)}
    (hop : op.Uses config file) : ∀ a ∈ tableAccesses noTimed op, a.Inside :=
  h (Fin 3) noTimed noTimed [] op ⟨fun _ => rfl, fun _ => rfl, rfl, rfl⟩
    (fun _ ho => absurd ho List.not_mem_nil) rfl hop

/-- With 255 runs there is no room for a section. -/
theorem CntFits.no_sections (h : CntFits 255 sectionNum) : sectionNum = 0 := by
  have hlt : 255 * (sectionNum.toNat + 1) < 256 := h
  exact BitVec.eq_of_toNat_eq (show sectionNum.toNat = 0 by omega)

/-- What the creation of a thread accesses is inside: there is a run, and the decoder
writes inside. -/
theorem RunsInside.written (h : RunsInside config file) (op : TableOp (Fin 3))
    {table : StartTable} {policyData : TimedPolicyData} (hop : op.Uses config file)
    (haccesses : tableAccesses noTimed op = decodeAccesses table policyData)
    (hsize : policyData.startTime.length =
      (startTimeCnt policyData.frequency policyData.sectionNum).toNat) :
    policyData.frequency ≠ 0 ∧ ∀ i ∈ table.written,
      i < (startTimeCnt policyData.frequency policyData.sectionNum).toNat := by
  have hfirst := h.first hop
  rw [haccesses] at hfirst
  refine ⟨fun hzero => ?_, fun i hi => ?_⟩
  · obtain ⟨a, ha, hout⟩ := not_inside_of_no_runs policyData table hsize hzero
    exact hout (hfirst a ha)
  · exact hfirst _ (List.mem_append_left _ (List.mem_map_of_mem hi))

/-- The file has the start times that the configuration is given. -/
theorem wraps_decode : wraps (.decode 0 (fileOf 255 0) fun _ => 0) =
    wraps (.decodeWithoutFs 0 (configOf 255 0) fun _ => 0) := by
  have htimes : (filePolicyData (fileOf 255 0) fun _ => 0).startTime =
      (configPolicyData (configOf 255 0) fun _ => 0).startTime := by
    decide +kernel
  have hdata : (filePolicyData (fileOf 255 0) fun _ => 0) =
      configPolicyData (configOf 255 0) fun _ => 0 :=
    congrArg (fun times => (⟨0, times, 0, 255⟩ : TimedPolicyData)) htimes
  have hstep : tableStep noTimed (.decode 0 (fileOf 255 0) fun _ => 0) =
      tableStep noTimed (.decodeWithoutFs 0 (configOf 255 0) fun _ => 0) :=
    congrArg (fun policyData => timedStep noTimed (.create 0 policyData)) hdata
  rw [wraps, wraps, Lib.run_cons, Lib.run_cons, hstep]

theorem wraps_255 : wraps (.decodeWithoutFs 0 (configOf 255 0) fun _ => 0) = true := by
  decide +kernel

theorem RunsInside.configFits (h : RunsInside config file) (huses : config frequency sectionNum) :
    ConfigFits frequency sectionNum := by
  obtain ⟨hpos, hinside⟩ : frequency ≠ 0 ∧ ∀ i ∈ (startTable (configOf frequency sectionNum)
      (fun _ => 0) frequency.toNat).written, i < (startTimeCnt frequency sectionNum).toNat :=
    h.written (.decodeWithoutFs 0 (configOf frequency sectionNum) fun _ => 0) huses rfl
      (StartTable.length_block _ _)
  have hwritten := (writes_inside_iff (configOf frequency sectionNum) fun _ => 0).mp hinside
  obtain ⟨hfit, hle⟩ := hwritten.resolve_left hpos
  refine ⟨⟨hpos, ?_, hfit⟩, hle⟩
  rintro rfl
  obtain rfl := CntFits.no_sections hfit
  exact absurd (h.not_wraps (.decodeWithoutFs 0 (configOf 255 0) fun _ => 0) huses)
    (by rw [wraps_255]; decide)

theorem RunsInside.fileFits (h : RunsInside config file) (huses : file frequency sectionNum) :
    FileFits frequency sectionNum := by
  obtain ⟨hpos, hinside⟩ : frequency ≠ 0 ∧ ∀ i ∈ (fileStartTable (fileOf frequency sectionNum)
      (fun _ => 0) frequency.toNat).written, i < (startTimeCnt frequency sectionNum).toNat :=
    h.written (.decode 0 (fileOf frequency sectionNum) fun _ => 0) huses rfl
      (StartTable.length_block _ _)
  have hfit := ((fileWrites_inside_iff (fileOf frequency sectionNum) fun _ => 0).mp hinside).resolve_left
    hpos
  refine ⟨hpos, ?_, hfit⟩
  rintro rfl
  obtain rfl := CntFits.no_sections hfit
  exact absurd (h.not_wraps (.decode 0 (fileOf 255 0) fun _ => 0) huses)
    (by rw [wraps_decode, wraps_255]; decide)

end Needed

/-- For every choice of the counts that the threads of a run may have: the start times are
written and read inside their tables in every run, over any number of hyperperiods, if and
only if all the counts fit. -/
theorem startTimes_inside_iff (config file : BitVec 8 → BitVec 8 → Prop) :
    RunsInside config file ↔
      (∀ frequency sectionNum, config frequency sectionNum → ConfigFits frequency sectionNum) ∧
        ∀ frequency sectionNum, file frequency sectionNum → FileFits frequency sectionNum := by
  constructor
  · intro h
    exact ⟨fun _ _ huses => h.configFits huses, fun _ _ huses => h.fileFits huses⟩
  · rintro ⟨hconfig, hfile⟩ T _ x y ops op hx hops hrun hop
    have hmono : ∀ o : TableOp T, o.Uses config file → o.Uses ConfigFits FileFits := by
      intro o ho
      cases o with
      | decodeWithoutFs thread cfg memory => exact hconfig _ _ ho
      | decode thread file memory         => exact hfile _ _ ho
      | tick fuel                         => trivial
      | env sched ipc runningThread       => trivial
    exact tableAccesses_inside hx (fun o ho => hmono o (hops o ho)) hrun (hmono op hop)

/-- One run of two sections has three entries, and the second section is written to the
fourth. In a file, 128 runs of one section have no entry left. -/
theorem startTimes_inside_fails :
    (startTimeCnt 1 2 = 3 ∧ 3 ∈ (startTable twoSections (fun _ => 0) 1).written) ∧
      (startTimeCnt 128 1 = 0 ∧ 1 ∈ (fileStartTable (fileOf 128 1) (fun _ => 0) 128).written) ∧
      ¬ RunsInside (fun _ _ => True) (fun _ _ => True) := by
  refine ⟨by decide, ⟨by decide, ?_⟩, fun h => ?_⟩
  · exact mem_written_fileStartTable.mpr ⟨0, by decide, Or.inr rfl⟩
  · have hin := h (Fin 3) noTimed noTimed [] (.decodeWithoutFs 0 twoSections fun _ => 0)
      ⟨fun _ => rfl, fun _ => rfl, rfl, rfl⟩ (fun _ ho => absurd ho List.not_mem_nil) rfl trivial
    exact absurd (hin ⟨3, 3⟩ (by decide)) (by decide)

end ACoral
