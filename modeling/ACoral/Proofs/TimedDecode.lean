import ACoral.Kernel.TimedDecode

/-!
# `ACoral.Proofs.TimedDecode`: what a timed configuration becomes

The loops of `timed_decode_without_fs` that fill in the tables of a thread take
everything from the element of its first section. The one over the start times
also counts with a variable of the same name as the loop over the runs, and it
writes the first entries of the runs `0` to `section_num - 1` in place of the
entries of its own run.

* `startTable_filled`, `mem_written_startTable`: what the table holds, and which
  of its entries were written.
* `decodeArgs_faithful_iff`: a thread is what its configuration says if there
  are no sections, or no runs, or there is one of each.
* `timedDecode_faithful_iff`: the same for a whole configuration.
-/

set_option autoImplicit false

namespace ACoral

/-! ### The table -/

namespace StartTable

variable {f memory : Nat → BitVec 32} {table : StartTable}

/-- A place that was written holds the value for it, and the others hold what
they held before. -/
def Filled (f memory : Nat → BitVec 32) (table : StartTable) : Prop :=
  ∀ i, table.entries i = if i ∈ table.written then f i else memory i

theorem Filled.write (h : Filled f memory table) (i : Nat) : Filled f memory (table.write i (f i)) := by
  intro j
  show Function.update table.entries i (f i) j =
    if j ∈ table.written ++ [i] then f j else memory j
  by_cases hj : j = i
  · rw [hj, Function.update_self, if_pos (by simp)]
  · rw [Function.update_of_ne hj, h j]
    simp [hj]

theorem Filled.foldl {α : Type} {g : StartTable → α → StartTable}
    (hg : ∀ table a, Filled f memory table → Filled f memory (g table a)) (l : List α)
    (h : Filled f memory table) : Filled f memory (l.foldl g table) := by
  induction l generalizing table with
  | nil => exact h
  | cons a l ih => exact ih (hg table a h)

/-- A loop writes what its rounds write. -/
theorem written_foldl {α : Type} {g : StartTable → α → StartTable} {w : α → List Nat}
    (hg : ∀ table a, (g table a).written = table.written ++ w a) (l : List α) :
    (l.foldl g table).written = table.written ++ l.flatMap w := by
  induction l generalizing table with
  | nil => simp
  | cons a l ih => rw [List.foldl_cons, ih, hg, List.flatMap_cons, List.append_assoc]

theorem block_getElem? {cnt : BitVec 8} {i : Nat} (hi : i < cnt.toNat) :
    (table.block cnt)[i]? = some (table.entries i) := by
  rw [block, List.getElem?_map, List.getElem?_range hi, Option.map_some]

/-- What is found in the block is the entry. -/
theorem eq_of_block_getElem? {cnt : BitVec 8} {i : Nat} {value : BitVec 32}
    (h : (table.block cnt)[i]? = some value) : table.entries i = value := by
  have hi : i < cnt.toNat := by
    have hlt := (List.getElem?_eq_some_iff.mp h).1
    rwa [block, List.length_map, List.length_range] at hlt
  rw [block_getElem? hi] at h
  exact Option.some.inj h

end StartTable

variable {cfg : TimedThreadConfig} {memory : Nat → BitVec 32}

/-- What `timed_decode_without_fs` writes at a place: the end of a run where a
run ends, and the start of the first section everywhere else. -/
def TimedThreadConfig.entry (cfg : TimedThreadConfig) (i : Nat) : BitVec 32 :=
  if (i + 1) % (cfg.sectionNum.toNat + 1) = 0 then
    BitVec.ofNat 32 ((i + 1) / (cfg.sectionNum.toNat + 1)) * cfg.period
  else cfg.execTimeSection.startTime

theorem entry_closing (j : Nat) :
    cfg.entry ((cfg.sectionNum.toNat + 1) * (j + 1) - 1) = BitVec.ofNat 32 (j + 1) * cfg.period := by
  have hsucc : (cfg.sectionNum.toNat + 1) * (j + 1) - 1 + 1 = (cfg.sectionNum.toNat + 1) * (j + 1) :=
    Nat.sub_add_cancel (Nat.mul_pos (Nat.succ_pos _) (Nat.succ_pos _))
  rw [TimedThreadConfig.entry, hsucc, if_pos (Nat.mul_mod_right _ _),
    Nat.mul_div_cancel_left _ (Nat.succ_pos _)]

/-- No run ends where one starts, if there is a section. -/
theorem entry_start (hpos : 0 < cfg.sectionNum.toNat) (j : Nat) :
    cfg.entry ((cfg.sectionNum.toNat + 1) * j) = cfg.execTimeSection.startTime := by
  have hmod : ((cfg.sectionNum.toNat + 1) * j + 1) % (cfg.sectionNum.toNat + 1) = 1 := by
    rw [Nat.mul_add_mod, Nat.mod_eq_of_lt (by omega)]
  rw [TimedThreadConfig.entry, if_neg (by omega)]

theorem writeStarts_filled {table : StartTable} (h : table.Filled cfg.entry memory) :
    (writeStarts cfg table).Filled cfg.entry memory := by
  unfold writeStarts
  by_cases hpos : 0 < cfg.sectionNum.toNat
  · refine h.foldl (fun table j ht => ?_) _
    rw [← entry_start hpos j]
    exact ht.write _
  · rw [Nat.eq_zero_of_not_pos hpos]
    exact h

theorem startTable_filled (cfg : TimedThreadConfig) (memory : Nat → BitVec 32) (runs : Nat) :
    (startTable cfg memory runs).Filled cfg.entry memory := by
  refine StartTable.Filled.foldl (fun table j ht => ?_) _ (fun i => by simp)
  rw [writeRun, writeClosing, ← entry_closing]
  exact (writeStarts_filled ht).write _

theorem written_writeStarts (table : StartTable) :
    (writeStarts cfg table).written = table.written ++
      (List.range cfg.sectionNum.toNat).flatMap fun j => [(cfg.sectionNum.toNat + 1) * j] :=
  StartTable.written_foldl (fun _ _ => rfl) _

theorem written_startTable (cfg : TimedThreadConfig) (memory : Nat → BitVec 32) (runs : Nat) :
    (startTable cfg memory runs).written = (List.range runs).flatMap fun j =>
      ((List.range cfg.sectionNum.toNat).flatMap fun j => [(cfg.sectionNum.toNat + 1) * j]) ++
        [(cfg.sectionNum.toNat + 1) * (j + 1) - 1] := by
  refine (StartTable.written_foldl (fun table j => ?_) _).trans (List.nil_append _)
  show (writeStarts cfg table).written ++ _ = _
  rw [written_writeStarts, List.append_assoc]

theorem mem_written_startTable {runs i : Nat} :
    i ∈ (startTable cfg memory runs).written ↔
      ∃ j < runs, (∃ k < cfg.sectionNum.toNat, i = (cfg.sectionNum.toNat + 1) * k) ∨
        i = (cfg.sectionNum.toNat + 1) * (j + 1) - 1 := by
  rw [written_startTable]
  simp

/-! ### One thread -/

/-- What the configuration says about run `j` is in the tables. -/
structure RunFaithful (cfg : TimedThreadConfig) (data : TimedPolicyTables) (j : Nat) : Prop where
  sections : ∀ k < cfg.sectionNum.toNat, ∃ s, cfg.execTimeSections[k]? = some s ∧
    data.exeTime[k]? = some s.exeTime ∧ data.sectionRoute[k]? = some s.secFunc ∧
    data.startTime[(cfg.sectionNum.toNat + 1) * j + k]? =
      some (BitVec.ofNat 32 j * cfg.period + s.startTime)
  closing : data.startTime[(cfg.sectionNum.toNat + 1) * (j + 1) - 1]? =
    some (BitVec.ofNat 32 (j + 1) * cfg.period)

/-- What the configuration says is in the tables. -/
def Faithful (cfg : TimedThreadConfig) (data : TimedPolicyTables) : Prop :=
  ∀ j < cfg.frequency.toNat, RunFaithful cfg data j

/-- There is nothing to decode, or one section in one run. -/
def TimedThreadConfig.Decodes (cfg : TimedThreadConfig) : Prop :=
  cfg.sectionNum = 0 ∨ cfg.frequency = 0 ∨ (cfg.frequency = 1 ∧ cfg.sectionNum = 1)

/-- A place that is not written has to hold by chance what it should. -/
theorem not_faithful_of_not_mem {j k : Nat} (hj : j < cfg.frequency.toNat)
    (hk : k < cfg.sectionNum.toNat) (i : Nat)
    (hnot : ∀ memory, (cfg.sectionNum.toNat + 1) * j + k ∉
      (startTable cfg memory cfg.frequency.toNat).written) :
    ∃ memory, ¬ Faithful cfg (decodeArgs cfg memory i).timedPolicyData := by
  -- the memory holds one more than the start of the section
  have hlen : k < cfg.execTimeSections.length := by
    have hel := cfg.elements
    omega
  let start := BitVec.ofNat 32 j * cfg.period + cfg.execTimeSections[k].startTime
  refine ⟨fun _ => start + 1, fun h => ?_⟩
  obtain ⟨s, hs, -, -, hstart⟩ := (h j hj).sections k hk
  have hsec : cfg.execTimeSections[k] = s := by
    rw [List.getElem?_eq_getElem hlen] at hs
    exact Option.some.inj hs
  have hentry := StartTable.eq_of_block_getElem? hstart
  rw [startTable_filled, if_neg (hnot _), ← hsec] at hentry
  have hone : (1 : BitVec 32) = 0 := add_eq_left.mp hentry
  cases hone

/-- With two sections the second one of the first run is not written. -/
theorem not_mem_second (hsec : 2 ≤ cfg.sectionNum.toNat) (memory : Nat → BitVec 32) (runs : Nat) :
    (cfg.sectionNum.toNat + 1) * 0 + 1 ∉ (startTable cfg memory runs).written := by
  rw [mem_written_startTable]
  rintro ⟨j, -, ⟨k, -, hk⟩ | hj⟩
  · cases k with
    | zero => simp at hk
    | succ k =>
        rw [Nat.mul_succ] at hk
        omega
  · rw [Nat.mul_succ] at hj
    omega

/-- With one section the start of the second run is not written. -/
theorem not_mem_later (hsec : cfg.sectionNum.toNat = 1) (memory : Nat → BitVec 32) (runs : Nat) :
    (cfg.sectionNum.toNat + 1) * 1 + 0 ∉ (startTable cfg memory runs).written := by
  rw [mem_written_startTable, hsec]
  rintro ⟨j, -, ⟨k, hk, he⟩ | hj⟩ <;> omega

/-- Without sections only the ends of the runs are to be decoded. -/
theorem faithful_of_no_sections (hsec : cfg.sectionNum = 0) (memory : Nat → BitVec 32) (i : Nat) :
    Faithful cfg (decodeArgs cfg memory i).timedPolicyData := by
  have hzero : cfg.sectionNum.toNat = 0 := congrArg BitVec.toNat hsec
  intro j hj
  refine ⟨fun k hk => absurd hk (by omega), ?_⟩
  have hcnt : (startTimeCnt cfg.frequency cfg.sectionNum).toNat = cfg.frequency.toNat := by
    rw [startTimeCnt, hsec, zero_add, mul_one]
  have hlt : (cfg.sectionNum.toNat + 1) * (j + 1) - 1 <
      (startTimeCnt cfg.frequency cfg.sectionNum).toNat := by
    rw [hcnt, hzero]
    omega
  show ((startTable cfg memory cfg.frequency.toNat).block _)[_]? = _
  rw [StartTable.block_getElem? hlt, startTable_filled,
    if_pos (mem_written_startTable.mpr ⟨j, hj, Or.inr rfl⟩), entry_closing]

/-- One section in one run is decoded. -/
theorem faithful_of_one (hfreq : cfg.frequency = 1) (hsec : cfg.sectionNum = 1)
    (memory : Nat → BitVec 32) (i : Nat) :
    Faithful cfg (decodeArgs cfg memory i).timedPolicyData := by
  have hone : cfg.sectionNum.toNat = 1 := congrArg BitVec.toNat hsec
  have hruns : cfg.frequency.toNat = 1 := congrArg BitVec.toNat hfreq
  have hcnt : (startTimeCnt cfg.frequency cfg.sectionNum).toNat = 2 := by
    rw [hfreq, hsec]
    rfl
  intro j hj
  obtain rfl : j = 0 := by omega
  constructor
  case sections =>
    intro k hk
    obtain rfl : k = 0 := by omega
    cases hall : cfg.execTimeSections with
    | nil =>
        have hel := cfg.elements
        rw [hall, hone] at hel
        cases hel
    | cons s rest =>
        have hfirst : cfg.execTimeSection = s := by rw [TimedThreadConfig.execTimeSection, hall]; rfl
        refine ⟨s, rfl, ?_, ?_, ?_⟩
        · show (decodeExeTime cfg)[0]? = _
          rw [decodeExeTime, hone, hfirst]
          rfl
        · show (decodeRoute cfg)[0]? = _
          rw [decodeRoute, hone, hfirst]
          show some (s.secFunc + 0) = _
          rw [add_zero]
        · show ((startTable cfg memory cfg.frequency.toNat).block _)[(cfg.sectionNum.toNat + 1) * 0]? = _
          rw [StartTable.block_getElem? (by rw [hcnt]; omega), startTable_filled,
            if_pos (mem_written_startTable.mpr ⟨0, hj, Or.inl ⟨0, hk, rfl⟩⟩),
            entry_start (by omega), hfirst]
          show _ = some ((0 : BitVec 32) * _ + _)
          rw [zero_mul, zero_add]
  case closing =>
    show ((startTable cfg memory cfg.frequency.toNat).block _)[_]? = _
    rw [StartTable.block_getElem? (by rw [hcnt, hone]; omega), startTable_filled,
      if_pos (mem_written_startTable.mpr ⟨0, hj, Or.inr rfl⟩), entry_closing]

/-- A thread is what its configuration says, whatever the memory held before, in
these cases only. -/
theorem decodeArgs_faithful_iff (cfg : TimedThreadConfig) (i : Nat) :
    (∀ memory, Faithful cfg (decodeArgs cfg memory i).timedPolicyData) ↔ cfg.Decodes := by
  constructor
  · intro h
    by_contra hnot
    unfold TimedThreadConfig.Decodes at hnot
    have hsec : 0 < cfg.sectionNum.toNat :=
      Nat.pos_of_ne_zero fun he => hnot (Or.inl (BitVec.eq_of_toNat_eq he))
    have hfreq : 0 < cfg.frequency.toNat :=
      Nat.pos_of_ne_zero fun he => hnot (Or.inr (Or.inl (BitVec.eq_of_toNat_eq he)))
    by_cases htwo : 2 ≤ cfg.sectionNum.toNat
    · obtain ⟨memory, hbad⟩ := not_faithful_of_not_mem hfreq htwo i fun memory =>
        not_mem_second htwo memory _
      exact hbad (h memory)
    · have hone : cfg.sectionNum.toNat = 1 := by omega
      have hruns : 1 < cfg.frequency.toNat := by
        rcases Nat.lt_or_ge 1 cfg.frequency.toNat with hlt | hle
        · exact hlt
        · have hfreq1 : cfg.frequency.toNat = 1 := by omega
          exact absurd (Or.inr (Or.inr ⟨BitVec.eq_of_toNat_eq hfreq1, BitVec.eq_of_toNat_eq hone⟩)) hnot
      obtain ⟨memory, hbad⟩ := not_faithful_of_not_mem hruns hsec i fun memory =>
        not_mem_later hone memory _
      exact hbad (h memory)
  · rintro (hsec | hfreq | ⟨hfreq, hsec⟩) memory
    · exact faithful_of_no_sections hsec memory i
    · intro j hj
      rw [hfreq] at hj
      cases hj
    · exact faithful_of_one hfreq hsec memory i

/-! ### A whole configuration -/

/-- `acoral_timed_time` and `max_exe_time` have an element for the CPU, or none is
needed. -/
def TimedThreadConfig.OnCpu (cfg : TimedThreadConfig) : Prop :=
  cfg.sectionNum = 0 ∨ cfg.cpu.toNat < CFG_MAX_CPU

theorem raiseMax_length {cpu : BitVec 8} {m m' : List (BitVec 32)} {exeTime : BitVec 32}
    (h : raiseMax cpu m exeTime = some m') : m'.length = m.length ∧ cpu.toNat < m.length := by
  unfold raiseMax at h
  obtain ⟨max, hmax, rfl⟩ := Option.map_eq_some_iff.mp h
  refine ⟨?_, (List.getElem?_eq_some_iff.mp hmax).1⟩
  split
  · exact List.length_set
  · rfl

theorem raiseMax_isSome {cpu : BitVec 8} {m : List (BitVec 32)} (hcpu : cpu.toNat < m.length)
    (exeTime : BitVec 32) : ∃ m', raiseMax cpu m exeTime = some m' := by
  rw [raiseMax, List.getElem?_eq_getElem hcpu]
  exact ⟨_, rfl⟩

/-- The loop over `max_exe_time` returns if the CPU has an element. The induction is
on the sections. -/
theorem foldlM_raiseMax {cpu : BitVec 8} {m : List (BitVec 32)} (exeTimes : List (BitVec 32)) :
    (∀ m', exeTimes.foldlM (raiseMax cpu) m = some m' →
        m'.length = m.length ∧ (exeTimes = [] ∨ cpu.toNat < m.length)) ∧
      (exeTimes = [] ∨ cpu.toNat < m.length → ∃ m', exeTimes.foldlM (raiseMax cpu) m = some m') := by
  induction exeTimes generalizing m with
  | nil => exact ⟨fun m' h => ⟨congrArg List.length (Option.some.inj h).symm, Or.inl rfl⟩,
      fun _ => ⟨m, rfl⟩⟩
  | cons exeTime exeTimes ih =>
      constructor
      · intro m' h
        rw [List.foldlM_cons] at h
        obtain ⟨m₁, h₁, hrest⟩ := Option.bind_eq_some_iff.mp h
        obtain ⟨hlen, hcpu⟩ := raiseMax_length h₁
        exact ⟨((ih.1 m' hrest).1).trans hlen, Or.inr hcpu⟩
      · rintro (h | hcpu)
        · cases h
        · obtain ⟨m₁, h₁⟩ := raiseMax_isSome hcpu exeTime
          obtain ⟨m', hrest⟩ := ih.2 (Or.inr ((raiseMax_length h₁).1 ▸ hcpu))
          exact ⟨m', by rw [List.foldlM_cons, h₁]; exact hrest⟩

theorem decodeExeTime_eq_nil_iff : decodeExeTime cfg = [] ↔ cfg.sectionNum = 0 := by
  rw [decodeExeTime, List.map_eq_nil_iff, List.range_eq_nil]
  exact ⟨fun h => BitVec.eq_of_toNat_eq h, fun h => congrArg BitVec.toNat h⟩

section Threads
variable {memory : Nat → Nat → BitVec 32} {cfgs : List TimedThreadConfig} {s s' : TimedDecoder}

/-- What the threads of a list are created with. -/
def decodedArgs (memory : Nat → Nat → BitVec 32) (cfgs : List TimedThreadConfig) :
    List TimedThreadArgs :=
  cfgs.mapIdx fun i cfg => decodeArgs cfg (memory i) i

theorem decodeThread_eq_some {i : Nat} (hlen : s.maxExeTime.length = CFG_MAX_CPU)
    (h : decodeThread memory cfgs s i = some s') :
    s'.maxExeTime.length = CFG_MAX_CPU ∧ ∃ cfg, cfgs[i]? = some cfg ∧ cfg.OnCpu ∧
      s'.created = s.created ++ [decodeArgs cfg (memory i) i] := by
  unfold decodeThread at h
  obtain ⟨cfg, hcfg, hmap⟩ := Option.bind_eq_some_iff.mp h
  obtain ⟨m', hm, rfl⟩ := Option.map_eq_some_iff.mp hmap
  obtain ⟨hm', hcpu⟩ := (foldlM_raiseMax _).1 m' hm
  rw [decodeExeTime_eq_nil_iff, hlen] at hcpu
  exact ⟨hm'.trans hlen, cfg, hcfg, hcpu, rfl⟩

/-- The loop over the threads: what it needs to return, and what it has created then.
The induction is on the threads. -/
theorem decodeThreads_eq_some (n : Nat) (hstart : s.maxExeTime.length = CFG_MAX_CPU)
    (hnone : s.created = []) (h : (List.range n).foldlM (decodeThread memory cfgs) s = some s') :
    s'.maxExeTime.length = CFG_MAX_CPU ∧ n ≤ cfgs.length ∧ (∀ cfg ∈ cfgs.take n, cfg.OnCpu) ∧
      s'.created = decodedArgs memory (cfgs.take n) := by
  induction n generalizing s' with
  | zero =>
      obtain rfl : s = s' := Option.some.inj h
      exact ⟨hstart, Nat.zero_le _, by simp, hnone⟩
  | succ n ih =>
      rw [List.range_succ, List.foldlM_append] at h
      obtain ⟨s₁, h₁, hlast⟩ := Option.bind_eq_some_iff.mp h
      obtain ⟨hlen, hle, hcpu, hcreated⟩ := ih h₁
      obtain ⟨s₂, h₂, heq⟩ := Option.bind_eq_some_iff.mp hlast
      obtain rfl : s₂ = s' := Option.some.inj heq
      obtain ⟨hlen', cfg, hcfg, honcpu, hnew⟩ := decodeThread_eq_some hlen h₂
      obtain ⟨hlt, rfl⟩ := List.getElem?_eq_some_iff.mp hcfg
      have htake : cfgs.take (n + 1) = cfgs.take n ++ [cfgs[n]] := (List.take_append_getElem hlt).symm
      refine ⟨hlen', hlt, ?_, ?_⟩
      · intro c hc
        rw [htake, List.mem_append, List.mem_singleton] at hc
        rcases hc with hc | rfl
        · exact hcpu c hc
        · exact honcpu
      · rw [hnew, hcreated, htake, decodedArgs, decodedArgs, List.mapIdx_append, List.length_take,
          Nat.min_eq_left hle]
        simp

theorem decodeThreads_isSome (n : Nat) (hstart : s.maxExeTime.length = CFG_MAX_CPU)
    (hnone : s.created = []) (hle : n ≤ cfgs.length) (hcpu : ∀ cfg ∈ cfgs.take n, cfg.OnCpu) :
    ∃ s', (List.range n).foldlM (decodeThread memory cfgs) s = some s' := by
  induction n with
  | zero => exact ⟨s, rfl⟩
  | succ n ih =>
      have htake : cfgs.take (n + 1) = cfgs.take n ++ [cfgs[n]] := (List.take_append_getElem hle).symm
      rw [htake] at hcpu
      obtain ⟨s₁, h₁⟩ := ih (by omega) fun cfg hc => hcpu cfg (List.mem_append_left _ hc)
      have hlen := (decodeThreads_eq_some n hstart hnone h₁).1
      have honcpu := hcpu cfgs[n] (List.mem_append_right _ List.mem_cons_self)
      rw [TimedThreadConfig.OnCpu, ← decodeExeTime_eq_nil_iff, ← hlen] at honcpu
      obtain ⟨m, hm⟩ := (foldlM_raiseMax _).2 honcpu
      have hthread : ∃ s', decodeThread memory cfgs s₁ n = some s' := by
        rw [decodeThread, List.getElem?_eq_getElem hle, Option.bind_some, hm]
        exact ⟨_, rfl⟩
      obtain ⟨s', hs'⟩ := hthread
      refine ⟨s', ?_⟩
      rw [List.range_succ, List.foldlM_append, h₁]
      show (decodeThread memory cfgs s₁ n).bind some = some s'
      rw [hs', Option.bind_some]

theorem forall₂_decodedArgs_iff :
    List.Forall₂ (fun cfg args => Faithful cfg args.timedPolicyData) cfgs (decodedArgs memory cfgs) ↔
      ∀ i (hi : i < cfgs.length), Faithful cfgs[i] (decodeArgs cfgs[i] (memory i) i).timedPolicyData := by
  rw [List.forall₂_iff_get]
  simp [decodedArgs]

end Threads

/-- Every thread that the configuration asks for is created with what it says. -/
def DecodedFaithfully (memory : Nat → Nat → BitVec 32) (gCfg : TimedGlobalConfig)
    (tCfgList : List TimedThreadConfig) : Prop :=
  ∃ s hPeriod, timedDecodeWithoutFs memory (some gCfg) (some tCfgList) = some (s, hPeriod) ∧
    (timedTest gCfg.magicNumber = true →
      List.Forall₂ (fun cfg args => Faithful cfg args.timedPolicyData)
        (tCfgList.take gCfg.timedThreadNumber.toNat) s.created)

/-- For every configuration: whatever the memory held before, every thread is created
with what its configuration says, if the header is refused, or there are as many
configurations as it says and each has no sections, or a CPU and no runs, or a CPU and
one section in one run. No other one is decoded. -/
theorem timedDecode_faithful_iff (gCfg : TimedGlobalConfig) (tCfgList : List TimedThreadConfig) :
    (∀ memory, DecodedFaithfully memory gCfg tCfgList) ↔
      (timedTest gCfg.magicNumber = true → gCfg.timedThreadNumber.toNat ≤ tCfgList.length ∧
        ∀ cfg ∈ tCfgList.take gCfg.timedThreadNumber.toNat, cfg.OnCpu ∧ cfg.Decodes) := by
  constructor
  · intro h htest
    have hret : ∀ memory : Nat → Nat → BitVec 32,
        gCfg.timedThreadNumber.toNat ≤ tCfgList.length ∧
          (∀ cfg ∈ tCfgList.take gCfg.timedThreadNumber.toNat, cfg.OnCpu) ∧
          List.Forall₂ (fun cfg args => Faithful cfg args.timedPolicyData)
            (tCfgList.take gCfg.timedThreadNumber.toNat)
            (decodedArgs memory (tCfgList.take gCfg.timedThreadNumber.toNat)) := by
      intro memory
      obtain ⟨s, hPeriod, hdec, hall⟩ := h memory
      unfold timedDecodeWithoutFs at hdec
      dsimp only at hdec
      rw [if_pos htest] at hdec
      obtain ⟨s', hrun, heq⟩ := Option.map_eq_some_iff.mp hdec
      obtain rfl : s' = s := congrArg Prod.fst heq
      obtain ⟨-, hle, hcpu, hcreated⟩ := decodeThreads_eq_some _ rfl rfl hrun
      exact ⟨hle, hcpu, hcreated ▸ hall htest⟩
    obtain ⟨hle, hcpu, -⟩ := hret fun _ _ => 0
    refine ⟨hle, fun cfg hcfg => ⟨hcpu cfg hcfg, ?_⟩⟩
    obtain ⟨i, hi, rfl⟩ := List.mem_iff_getElem.mp hcfg
    -- the memory of the others does not matter
    refine (decodeArgs_faithful_iff _ i).mp fun memory => ?_
    exact forall₂_decodedArgs_iff.mp (hret fun _ => memory).2.2 i hi
  · intro hcond memory
    unfold DecodedFaithfully timedDecodeWithoutFs
    dsimp only
    by_cases htest : timedTest gCfg.magicNumber = true
    · obtain ⟨hle, hall⟩ := hcond htest
      have hreturns : ∃ s, (List.range gCfg.timedThreadNumber.toNat).foldlM
          (decodeThread memory tCfgList) ⟨List.replicate CFG_MAX_CPU 0, [], []⟩ = some s :=
        decodeThreads_isSome _ rfl rfl hle fun cfg hc => (hall cfg hc).1
      obtain ⟨s, hrun⟩ := hreturns
      obtain ⟨-, -, -, hcreated⟩ := decodeThreads_eq_some _ rfl rfl hrun
      rw [if_pos htest, hrun]
      refine ⟨s, _, rfl, fun _ => ?_⟩
      rw [hcreated, forall₂_decodedArgs_iff]
      intro i hi
      exact (decodeArgs_faithful_iff _ i).mpr (hall _ (List.getElem_mem hi)).2 (memory i)
    · rw [if_neg htest]
      exact ⟨_, _, rfl, fun h => absurd h htest⟩

/-! ### Two sections -/

/-- A thread with two sections, of 3 and 2 units, at 0 and 3, in one run of 10. -/
def twoSections : TimedThreadConfig where
  period := 10
  sectionNum := 2
  frequency := 1
  cpu := 0
  execTimeSections := [⟨3, 0, 0x1000⟩, ⟨2, 3, 0x2000⟩]
  elements := by decide

/-- A configuration with one thread. -/
def oneThread : TimedGlobalConfig where
  magicNumber := fun _ => 0xff
  hyperPeriod := fun _ => 10
  timedThreadNumber := 1

/-- The second section has the time of the first one and an address behind its
function, and its start is what the memory held. -/
theorem timedDecode_faithful_fails :
    (∃ s hPeriod, timedDecodeWithoutFs (fun _ _ => 7) (some oneThread) (some [twoSections]) =
        some (s, hPeriod) ∧
      s.created.map (fun args => args.timedPolicyData.exeTime) = [[3, 3]] ∧
      s.created.map (fun args => args.timedPolicyData.sectionRoute) = [[0x1000, 0x1001]] ∧
      s.created.map (fun args => args.timedPolicyData.startTime) = [[0, 7, 10]]) ∧
    ¬ DecodedFaithfully (fun _ _ => 7) oneThread [twoSections] := by
  have hdec : ∃ s hPeriod, timedDecodeWithoutFs (fun _ _ => 7) (some oneThread) (some [twoSections]) =
      some (s, hPeriod) ∧ s.created = [decodeArgs twoSections (fun _ => 7) 0] := ⟨_, _, rfl, rfl⟩
  obtain ⟨s, hPeriod, hrun, hcreated⟩ := hdec
  refine ⟨⟨s, hPeriod, hrun, ?_, ?_, ?_⟩, ?_⟩
  · rw [hcreated]; decide
  · rw [hcreated]; decide
  · rw [hcreated]; decide
  · rintro ⟨s', hPeriod', hrun', hall⟩
    obtain rfl : s = s' := congrArg Prod.fst (Option.some.inj (hrun.symm.trans hrun'))
    rw [hcreated] at hall
    cases hall rfl with
    | cons hthread _ =>
        obtain ⟨sec, hsec, hexe, -⟩ := (hthread 0 (by decide)).sections 1 (by decide)
        obtain rfl : ⟨2, 3, 0x2000⟩ = sec := Option.some.inj hsec
        exact absurd hexe (by decide)

end ACoral
