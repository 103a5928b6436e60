import ACoral.Kernel.TimedThrd

/-!
# `ACoral.Kernel.TimedDecode`: timed configurations

`timed.c` makes timed threads from a configuration. `timed_decode_without_fs`
takes it from tables in the program and `timed_decode` from a file. For each
thread they allocate the table of the start times and the ones of the sections,
fill them in, and create the thread with them.

* Memory is taken to suffice. What the memory of the start times holds before
  is the parameter `memory`: entry by entry, and on behind the block.
* `written` is the history: the places that were written, in order.
* A function of a section is its address. The ids of the threads, the messages
  and the arguments that are `NULL` for every thread are left out.
* `CFG_ADMIS_CTRL_ENABLE` is not set, so `max_exe_time` is computed for nothing.
-/

set_option autoImplicit false

namespace ACoral

/-! ### The configuration -/

/-- `timed_exec_section_t` -/
structure TimedExecSection where
  exeTime : BitVec 32
  startTime : BitVec 32
  secFunc : BitVec 32
deriving DecidableEq, Repr

/-- `timed_thread_config_t`. There is an element for each section. -/
structure TimedThreadConfig where
  period : BitVec 32
  sectionNum : BitVec 8
  frequency : BitVec 8
  cpu : BitVec 8
  execTimeSections : List TimedExecSection
  elements : sectionNum.toNat ≤ execTimeSections.length

/-- What `exec_time_sections->` reads, the first element. It is read only where
there is a section. -/
def TimedThreadConfig.execTimeSection (cfg : TimedThreadConfig) : TimedExecSection :=
  cfg.execTimeSections.headD ⟨0, 0, 0⟩

/-- `timed_global_config_t` -/
structure TimedGlobalConfig where
  magicNumber : Fin 4 → BitVec 8
  hyperPeriod : Fin CFG_MAX_CPU → BitVec 32
  timedThreadNumber : BitVec 8

/-- `timed_test` -/
def timedTest (test : Fin 4 → BitVec 8) : Bool :=
  test 0 = 0x3e || test 1 = 0x13 || test 2 = 0xff || test 3 = 0xff

/-! ### The table of the start times -/

/-- The memory at `start_time`, entry by entry. -/
structure StartTable where
  entries : Nat → BitVec 32
  written : List Nat

/-- `start_time[i] = value` -/
def StartTable.write (table : StartTable) (i : Nat) (value : BitVec 32) : StartTable where
  entries := Function.update table.entries i value
  written := table.written ++ [i]

/-- `start_time_cnt`, the entries that are allocated. -/
def startTimeCnt (frequency sectionNum : BitVec 8) : BitVec 8 := frequency * (sectionNum + 1)

/-- The entries of the block. -/
def StartTable.block (table : StartTable) (cnt : BitVec 8) : List (BitVec 32) :=
  (List.range cnt.toNat).map table.entries

/-- The entry at the end of run `j`. -/
def writeClosing (sectionNum : BitVec 8) (period : BitVec 32) (table : StartTable) (j : Nat) :
    StartTable :=
  table.write ((sectionNum.toNat + 1) * (j + 1) - 1) (BitVec.ofNat 32 (j + 1) * period)

/-- The loop inside the loop over the runs. It counts with a `j` of its own. -/
def writeStarts (cfg : TimedThreadConfig) (table : StartTable) : StartTable :=
  (List.range cfg.sectionNum.toNat).foldl
    (fun table j => table.write ((cfg.sectionNum.toNat + 1) * j) cfg.execTimeSection.startTime) table

/-- What run `j` writes. -/
def writeRun (cfg : TimedThreadConfig) (table : StartTable) (j : Nat) : StartTable :=
  writeClosing cfg.sectionNum cfg.period (writeStarts cfg table) j

/-- The table after some of the runs. -/
def startTable (cfg : TimedThreadConfig) (memory : Nat → BitVec 32) (runs : Nat) : StartTable :=
  (List.range runs).foldl (writeRun cfg) ⟨memory, []⟩

/-! ### `timed_decode_without_fs` -/

/-- What `timed_decode_without_fs` creates a thread with, of
`acoral_timed_policy_data_t`. -/
def configPolicyData (cfg : TimedThreadConfig) (memory : Nat → BitVec 32) : TimedPolicyData where
  cpu := cfg.cpu.toNat
  startTime := (startTable cfg memory cfg.frequency.toNat).block
    (startTimeCnt cfg.frequency cfg.sectionNum)
  sectionNum := cfg.sectionNum
  frequency := cfg.frequency

/-- `acoral_timed_policy_data_t` -/
structure TimedPolicyTables extends TimedPolicyData where
  exeTime : List (BitVec 32)
  sectionRoute : List (BitVec 32)

/-- The arguments of `acoral_create_thread`. -/
structure TimedThreadArgs where
  stackSize : BitVec 32
  /-- the last letter of the name -/
  nameEnd : BitVec 8
  timedPolicyData : TimedPolicyTables

/-- What the decoder has done. -/
structure TimedDecoder where
  /-- `max_exe_time` -/
  maxExeTime : List (BitVec 32)
  /-- what is put into `acoral_timed_time`: the CPU, the start and the execution time -/
  timedTime : List (BitVec 8 × BitVec 32 × BitVec 32)
  created : List TimedThreadArgs

def TIMED_STACK_SIZE : BitVec 32 := 256

/-- The loop over `section_route`. -/
def decodeRoute (cfg : TimedThreadConfig) : List (BitVec 32) :=
  (List.range cfg.sectionNum.toNat).map fun j => cfg.execTimeSection.secFunc + BitVec.ofNat 32 j

/-- The loop over `exe_time`. -/
def decodeExeTime (cfg : TimedThreadConfig) : List (BitVec 32) :=
  (List.range cfg.sectionNum.toNat).map fun _ => cfg.execTimeSection.exeTime

/-- What run `j` puts into `acoral_timed_time`. It reads the entries as they are
after the run. -/
def decodeTimes (cfg : TimedThreadConfig) (memory : Nat → BitVec 32) (j : Nat) :
    List (BitVec 8 × BitVec 32 × BitVec 32) :=
  (List.range cfg.sectionNum.toNat).map fun k =>
    (cfg.cpu, (startTable cfg memory (j + 1)).entries ((cfg.sectionNum.toNat + 1) * j + k),
      cfg.execTimeSection.exeTime)

/-- `max_exe_time[cpu]` is raised to an execution time. There is an element for
each CPU, as in `acoral_timed_time`. -/
def raiseMax (cpu : BitVec 8) (maxExeTime : List (BitVec 32)) (exeTime : BitVec 32) :
    Option (List (BitVec 32)) :=
  maxExeTime[cpu.toNat]?.map fun max =>
    if max < exeTime then maxExeTime.set cpu.toNat exeTime else maxExeTime

/-- What thread `i` is created with. -/
def decodeArgs (cfg : TimedThreadConfig) (memory : Nat → BitVec 32) (i : Nat) : TimedThreadArgs where
  stackSize := TIMED_STACK_SIZE * (cfg.sectionNum.setWidth 32 + 1)
  nameEnd := 48 + BitVec.ofNat 8 i
  timedPolicyData :=
    { configPolicyData cfg memory with
      exeTime := decodeExeTime cfg
      sectionRoute := decodeRoute cfg }

/-- The body of the loop over the threads, for thread `i`. -/
def decodeThread (memory : Nat → Nat → BitVec 32) (tCfgList : List TimedThreadConfig)
    (s : TimedDecoder) (i : Nat) : Option TimedDecoder :=
  tCfgList[i]?.bind fun cfg =>
    ((decodeExeTime cfg).foldlM (raiseMax cfg.cpu) s.maxExeTime).map fun maxExeTime =>
      { maxExeTime := maxExeTime
        timedTime := s.timedTime ++
          (List.range cfg.frequency.toNat).flatMap (decodeTimes cfg (memory i))
        created := s.created ++ [decodeArgs cfg (memory i) i] }

/-- `timed_decode_without_fs`, with `acoral_timed_h_period` where it is set.
`memory i` is what the memory of the start times of thread `i` holds before. -/
def timedDecodeWithoutFs (memory : Nat → Nat → BitVec 32) (gCfg : Option TimedGlobalConfig)
    (tCfgList : Option (List TimedThreadConfig)) :
    Option (TimedDecoder × Option (Fin CFG_MAX_CPU → BitVec 32)) :=
  let start : TimedDecoder := ⟨List.replicate CFG_MAX_CPU 0, [], []⟩
  match gCfg, tCfgList with
  | some gCfg, some tCfgList =>
      if timedTest gCfg.magicNumber then
        ((List.range gCfg.timedThreadNumber.toNat).foldlM (decodeThread memory tCfgList) start).map
          fun s => (s, some gCfg.hyperPeriod)
      else some (start, none)
  | _, _ => some (start, none)

/-! ### `timed_decode` -/

/-- What the reads of a thread find in the file: at most as many words as they
ask for. -/
structure TimedFileThread where
  period : BitVec 32
  sectionNum : BitVec 8
  frequency : BitVec 8
  cpu : BitVec 8
  /-- the start times of each run -/
  startTime : Nat → List (BitVec 32)
  startTime_le : ∀ k, (startTime k).length ≤ sectionNum.toNat

/-- `f_read` into the table, from entry `i` on. -/
def readStarts (table : StartTable) (i : Nat) (words : List (BitVec 32)) : StartTable :=
  words.zipIdx.foldl (fun table word => table.write (i + word.2) word.1) table

/-- What run `k` writes. -/
def readRun (file : TimedFileThread) (table : StartTable) (k : Nat) : StartTable :=
  writeClosing file.sectionNum file.period
    (readStarts table ((file.sectionNum.toNat + 1) * k) (file.startTime k)) k

/-- The table after some of the runs. -/
def fileStartTable (file : TimedFileThread) (memory : Nat → BitVec 32) (runs : Nat) : StartTable :=
  (List.range runs).foldl (readRun file) ⟨memory, []⟩

/-- What `timed_decode` creates a thread with, of `acoral_timed_policy_data_t`. -/
def filePolicyData (file : TimedFileThread) (memory : Nat → BitVec 32) : TimedPolicyData where
  cpu := file.cpu.toNat
  startTime := (fileStartTable file memory file.frequency.toNat).block
    (startTimeCnt file.frequency file.sectionNum)
  sectionNum := file.sectionNum
  frequency := file.frequency

end ACoral
