import ACoral.Kernel.Critical

/-!
# `ACoral.Proofs.Critical.Balance`: what each operation leaves

Each function of `ipc.c` and `thread.c` leaves the nesting and the locks as
it finds them (`Prog.Balanced`), on every path, with the exception of the
error exits of `acoral_dpcp_pend` and `acoral_dpcp_post`. For those the
lemmas name the reads that must go well (`dpcpOpen`).

The proofs follow the code: a rule of `Prog.Closes` for each instruction.
-/

set_option autoImplicit false

namespace ACoral.Critical

open Lib (Prog)
open Lib.Prog (Closes Moves Balanced)

variable {R T : Type} [DecidableEq R] [DecidableEq T]

/-! ### Threads -/

omit [DecidableEq T] in
/-- One critical section with a write. -/
theorem ownSection_balanced (f : Nat → CeilingState R PendQueue T → CeilingState R PendQueue T) :
    (do acoralEnterCritical; Prog.modifyOn f; acoralExitCritical : Code R T Unit).Balanced :=
  .enter (.bind (.modifyOn f) fun _ => .exitSection)

theorem acoralRdyThread_balanced (thread : T) :
    (acoralRdyThread thread : Code R T Unit).Balanced := by
  unfold acoralRdyThread
  refine .bind .get fun s => .ite (fun _ => .pure ()) fun _ => ?_
  refine .bind .get fun s => .bind .cpu fun current => .ite (fun _ => .modify _) fun _ => ?_
  exact ownSection_balanced _

theorem acoralSuspendThread_balanced (thread : T) :
    (acoralSuspendThread thread : Code R T Unit).Balanced := by
  unfold acoralSuspendThread
  refine .bind .get fun s => .ite (fun _ => .pure ()) fun _ => ?_
  refine .bind .get fun s => .bind .cpu fun current => .ite (fun _ => .modify _) fun _ => ?_
  exact ownSection_balanced _

theorem acoralThreadChangePrio_balanced (thread : T) (prio : Nat) :
    (acoralThreadChangePrio thread prio : Code R T Unit).Balanced := by
  unfold acoralThreadChangePrio
  refine .bind .get fun s => .bind .cpu fun current => .ite (fun _ => .modify _) fun _ => ?_
  exact ownSection_balanced _

theorem acoralJumpCpu_balanced (cur : T) (cpu : Nat) :
    (acoralJumpCpu cur cpu : Code R T Unit).Balanced := by
  unfold acoralJumpCpu
  refine .bind .get fun s => .ite (fun _ => .pure ()) fun _ => .enter ?_
  refine .bind .get fun s => .bind .cpu fun current => .ite (fun _ => .exitSection) fun _ => ?_
  exact .bind (acoralSuspendThread_balanced cur) fun _ => .bind (.modify _) fun _ => .exitSection

/-! ### Objects -/

omit [DecidableEq T] in
theorem ipcUpdate_balanced
    (f : IpcState (CeilingObj R PendQueue) T → Option (IpcState (CeilingObj R PendQueue) T)) :
    (ipcUpdate f : Code R T Unit).Balanced := .update _

omit [DecidableEq T] in
theorem ipcModify_balanced
    (f : IpcState (CeilingObj R PendQueue) T → IpcState (CeilingObj R PendQueue) T) :
    (ipcModify f : Code R T Unit).Balanced := .modify _

omit [DecidableEq T] in
/-- The checks are in front of every critical section. -/
theorem ipcChecked_balanced {A : Type}
    {check : IpcState (CeilingObj R PendQueue) T → Except KernelError (CeilingObj R PendQueue)}
    {error : KernelError → A} {body : CeilingObj R PendQueue → Code R T A}
    (hbody : ∀ i, (body i).Balanced) : (ipcChecked check error body).Balanced := by
  refine .bind .get fun s => ?_
  cases check s.ipc with
  | error e => exact .pure _
  | ok i => exact hbody i

section Sections

variable {A : Type} {i : CeilingObj R PendQueue} {k : Nat} {ls : List (SpinLock R)}
  {g : Unit → Code R T A}

omit [DecidableEq T] in
/-- The critical section of an object begins. -/
theorem ipcEnter_closes (hg : (g ()).Closes (k + 1) (.ipc i :: ls)) :
    (ipcEnter i >>= g : Code R T A).Closes k ls := by
  have henter : (acoralEnterCritical >>= fun _ => acoralSpinLock (.ipc i) >>= g :
      Code R T A).Closes k ls := .enter (.acquire hg)
  exact henter

omit [DecidableEq T] in
/-- It ends. -/
theorem ipcExit_closes (hg : (g ()).Closes k ls) :
    (ipcExit i >>= g : Code R T A).Closes (k + 1) (.ipc i :: ls) := by
  have hexit : (acoralSpinUnlock (.ipc i) >>= fun _ => acoralExitCritical >>= g :
      Code R T A).Closes (k + 1) (.ipc i :: ls) := .release (.exit hg)
  exact hexit

omit [DecidableEq T] in
/-- The call returns out of it. -/
theorem ipcReturn_closes (i : CeilingObj R PendQueue) (a : A) :
    (ipcReturn i a : Code R T A).Closes 1 [.ipc i] := ipcExit_closes (.pure a)

end Sections

omit [DecidableEq T] in
theorem acoralIpcHighThread_balanced (i : CeilingObj R PendQueue) :
    (acoralIpcHighThread i : Code R T (Option T)).Balanced := by
  refine .bind .get fun s => ?_
  cases ACoral.acoralIpcHighThread s.ipc i with
  | some thread => exact .pure thread
  | none => exact .bind .hang fun _ => .pure none

omit [DecidableEq T] in
theorem ownSection_empty_balanced :
    (do acoralEnterCritical; acoralExitCritical : Code R T Unit).Balanced := .enter .exitSection

omit [DecidableEq T] in
theorem acoralGetRes_balanced (pool : PoolAlloc) :
    (acoralGetRes pool : Code R T Unit).Balanced := by
  have hcreate : (acoralGetRes.acoralCreatePool pool : Code R T Unit).Balanced := by
    cases pool with
    | available => exact .pure ()
    | noPool => exact ownSection_empty_balanced
    | noMem => exact ownSection_empty_balanced
    | created => exact .bind ownSection_empty_balanced fun _ => ownSection_empty_balanced
  exact .enter (.acquire (.bind hcreate fun _ => .release .exitSection))

theorem ipcDel_balanced (type : IpcType) (done : KernelError) (n : Nat)
    (ipc : Option (CeilingObj R PendQueue)) :
    (ipcDel type done n ipc : Code R T KernelError).Balanced := by
  refine ipcChecked_balanced fun i => ipcEnter_closes (.bind .get fun s => ?_)
  exact .ite (fun _ => ipcReturn_closes i done) fun _ => ipcReturn_closes i _

/-! ### Mutexes -/

omit [DecidableEq T] in
theorem acoralMutexTrypend_balanced (cur : T) (n : Nat) (ipc : Option (CeilingObj R PendQueue)) :
    (acoralMutexTrypend cur n ipc : Code R T KernelError).Balanced := by
  refine ipcChecked_balanced fun i => ipcEnter_closes (.bind .get fun s => ?_)
  refine .ite (fun _ => ?_) fun _ => ipcReturn_closes i _
  exact .bind (ipcModify_balanced _) fun _ => ipcReturn_closes i _

theorem acoralMutexPend_balanced (fuel : Nat) (cur : T) (n : Nat)
    (ipc : Option (CeilingObj R PendQueue)) :
    (acoralMutexPend fuel cur n ipc : Code R T KernelError).Balanced := by
  refine ipcChecked_balanced fun i => ipcEnter_closes (.bind .get fun s => .ite (fun _ => ?_) fun _ => ?_)
  · exact .bind (ipcModify_balanced _) fun _ => ipcReturn_closes i _
  · refine .bind (acoralSuspendThread_balanced cur) fun _ => .bind (ipcUpdate_balanced _) fun _ => ?_
    -- behind the schedule point the section begins again
    refine ipcExit_closes (ipcEnter_closes (.bind .get fun s => .ite (fun _ => ?_) fun _ => ?_))
    · refine .bind (ipcUpdate_balanced _) fun _ => .bind (ipcModify_balanced _) fun _ => ?_
      exact ipcReturn_closes i _
    · exact ipcReturn_closes i _

theorem acoralMutexPost_balanced (cur : T) (ipc : Option (CeilingObj R PendQueue)) :
    (acoralMutexPost cur ipc : Code R T KernelError).Balanced := by
  refine ipcChecked_balanced fun i => .bind .get fun s => .ite (fun _ => .pure _) fun _ => ?_
  refine .bind (ipcModify_balanced _) fun _ => ipcEnter_closes ?_
  refine .bind (ipcModify_balanced _) fun _ => .bind (acoralIpcHighThread_balanced i) fun thread => ?_
  cases thread with
  | none => exact ipcReturn_closes i _
  | some thread => exact ipcExit_closes (.bind (acoralRdyThread_balanced thread) fun _ => .pure _)

/-! ### Semaphores -/

omit [DecidableEq T] in
theorem acoralSemTrypend_balanced (n : Nat) (ipc : Option (CeilingObj R PendQueue)) :
    (acoralSemTrypend n ipc : Code R T KernelError).Balanced := by
  refine ipcChecked_balanced fun i => ipcEnter_closes (.bind .get fun s => ?_)
  refine .ite (fun _ => ?_) fun _ => ipcReturn_closes i _
  exact .bind (ipcModify_balanced _) fun _ => ipcReturn_closes i _

theorem semWait_closes (fuel : Nat) (cur : T) (i : CeilingObj R PendQueue) :
    (semWait fuel cur i : Code R T KernelError).Closes 1 [.ipc i] := by
  refine .bind (acoralSuspendThread_balanced cur) fun _ => .bind (ipcUpdate_balanced _) fun _ => ?_
  refine ipcExit_closes (ipcEnter_closes (.bind (ipcUpdate_balanced _) fun _ => ?_))
  exact ipcReturn_closes i _

theorem acoralSemPends_balanced (fuel : Nat) (cur : T) (n : Nat)
    (ipc : Option (CeilingObj R PendQueue)) :
    (acoralSemPends fuel cur n ipc : Code R T KernelError).Balanced := by
  refine ipcChecked_balanced fun i => ipcEnter_closes (.bind .get fun s => ?_)
  exact .ite (fun _ => ipcReturn_closes i _) fun _ => semWait_closes fuel cur i

theorem acoralSemPend_balanced (fuel : Nat) (cur : T) (n : Nat)
    (ipc : Option (CeilingObj R PendQueue)) :
    (acoralSemPend fuel cur n ipc : Code R T KernelError).Balanced := by
  refine ipcChecked_balanced fun i => ipcEnter_closes (.bind .get fun s => .ite (fun _ => ?_) fun _ => ?_)
  · exact .bind (ipcModify_balanced _) fun _ => ipcReturn_closes i _
  · exact .bind (ipcModify_balanced _) fun _ => semWait_closes fuel cur i

/-- A count is in the range of an `acoral_16`. -/
theorem count_range (count : BitVec 16) : count.toInt ≥ -32768 := by
  have hle := BitVec.le_toInt count
  simpa using hle

theorem semRdyAll_balanced (i : CeilingObj R PendQueue) (fuel : Nat)
    (tmp : IpcNode (CeilingObj R PendQueue) T) :
    (semRdyAll i fuel tmp : Code R T Unit).Balanced := by
  induction fuel generalizing tmp with
  | zero => exact .hang
  | succ fuel ih =>
      cases tmp with
      | head j => exact .ite (fun _ => .pure ()) fun _ => .hang
      | pending t => exact .bind (acoralRdyThread_balanced t) fun _ => .bind .get fun s => ih _

theorem acoralSemPosts_balanced (fuel : Nat) (ipc : Option (CeilingObj R PendQueue)) :
    (acoralSemPosts fuel ipc : Code R T KernelError).Balanced := by
  refine ipcChecked_balanced fun i => ipcEnter_closes (.bind .get fun s => .ite (fun _ => ?_) fun hc => ?_)
  · refine .bind (ipcModify_balanced _) fun _ => .bind .get fun s => ?_
    exact .bind (semRdyAll_balanced i fuel _) fun _ => ipcReturn_closes i _
  · exact absurd (count_range _) hc

theorem acoralSemPost_balanced (ipc : Option (CeilingObj R PendQueue)) :
    (acoralSemPost ipc : Code R T KernelError).Balanced := by
  refine ipcChecked_balanced fun i => ipcEnter_closes (.bind .get fun s => .ite (fun _ => ?_) fun hc => ?_)
  · refine .bind .get fun s => .ite (fun _ => ?_) fun _ => ?_
    · exact .bind (ipcModify_balanced _) fun _ => ipcReturn_closes i _
    · refine .bind (ipcModify_balanced _) fun _ => ?_
      refine .bind (acoralIpcHighThread_balanced i) fun thread => ?_
      cases thread with
      | none => exact ipcReturn_closes i _
      | some thread => exact .bind (acoralRdyThread_balanced thread) fun _ => ipcReturn_closes i _
  · exact absurd (count_range _) hc

omit [DecidableEq T] in
theorem acoralSemGetnum_balanced (ipc : Option (CeilingObj R PendQueue)) :
    (acoralSemGetnum ipc : Code R T Int).Balanced := by
  cases ipc with
  | none => exact .pure _
  | some i => exact ipcEnter_closes (.bind .get fun s => ipcReturn_closes i _)

/-! ### Both ceiling protocols -/

theorem inheritPrio_balanced (k : PendQueue) (cur : T) :
    (inheritPrio k cur : Code R T Unit).Balanced := by
  refine .bind .get fun s => ?_
  cases (s.stackTop k).bind s.owner with
  | some t => exact acoralThreadChangePrio_balanced t _
  | none => exact .hang

theorem ceilingTake_balanced (fuel : Nat) (cur : T) (n : Nat) (r : R) :
    (ceilingTake fuel cur n r : Code R T KernelError).Balanced := by
  have hpend := acoralSemPend_balanced fuel cur n (some (.sem r))
  exact .bind .get fun s => .ite (fun _ => .bind (.modify _) fun _ => hpend) fun _ => hpend

omit [DecidableEq T] in
theorem waitHead_balanced (k : PendQueue) : (waitHead k : Code R T (Option T)).Balanced :=
  acoralIpcHighThread_balanced _

omit [DecidableEq T] in
theorem memCall_balanced : (memCall : Code R T Unit).Balanced := ownSection_empty_balanced

/-! ### MPCP -/

omit [DecidableEq T] in
theorem acoralMpcpCreate_balanced (pool : Option PoolAlloc) :
    (acoralMpcpCreate pool : Code R T Unit).Balanced := by
  cases pool with
  | none => exact memCall_balanced
  | some pool => exact .bind memCall_balanced fun _ => acoralGetRes_balanced pool

theorem mpcpLocal_balanced (fuel curCpu : Nat) (cur : T) (r : R) :
    (mpcpLocal fuel curCpu cur r).Balanced := by
  have hpush : (mpcpLocal.mpcpPush curCpu cur r).Balanced :=
    .bind .get fun s => .ite (fun _ => .bind (.update _) fun _ => .modify _) fun _ => .pure ()
  refine .bind .get fun s => .ite (fun _ => ?_) fun _ => hpush
  refine .bind (inheritPrio_balanced _ cur) fun _ => .bind (.update _) fun _ => ?_
  exact .bind (acoralSuspendThread_balanced cur) fun _ => hpush

theorem mpcpGlobal_balanced (cur : T) (r : R) : (mpcpGlobal cur r).Balanced := by
  refine .bind (.modify _) fun _ => .bind .get fun s => .ite (fun _ => ?_) fun _ => .pure ()
  exact .bind (.modify _) fun _ => .bind .get fun s => acoralThreadChangePrio_balanced cur _

theorem acoralMpcpPend_balanced (fuel curCpu : Nat) (cur : T) (n : Nat) (r : R) :
    (acoralMpcpPend fuel curCpu cur n r).Balanced := by
  refine .bind .get fun s => ?_
  cases (s.res r).type with
  | LOCAL =>
      refine .ite (fun _ => .pure _) fun _ => ?_
      exact .bind (mpcpLocal_balanced fuel curCpu cur r) fun _ => ceilingTake_balanced fuel cur n r
  | GLOBAL =>
      -- the spin lock stays over the whole of the semaphore
      refine .acquire (.bind (mpcpGlobal_balanced cur r) fun _ => ?_)
      exact .bind (ceilingTake_balanced fuel cur n r) fun err => .release (.pure err)

theorem mpcpRestore_balanced (cur : T) (r : R) : (mpcpRestore cur r).Balanced := by
  refine .bind .get fun s => .ite (fun _ => ?_) fun _ => .modify _
  exact .bind (acoralThreadChangePrio_balanced cur _) fun _ => .modify _

theorem acoralMpcpPost_balanced (curCpu : Nat) (cur : T) (r : R) :
    (acoralMpcpPost curCpu cur r).Balanced := by
  refine .bind .get fun s => .ite (fun _ => .pure _) fun _ => ?_
  have hpost := acoralSemPost_balanced (T := T) (some (.sem r))
  have hend : (mpcpRestore cur r >>= fun _ => acoralSemPost (some (.sem r))).Balanced :=
    .bind (mpcpRestore_balanced cur r) fun _ => hpost
  cases (s.res r).type with
  | LOCAL =>
      refine .bind (.update _) fun _ => .bind (waitHead_balanced _) fun head => ?_
      cases head with
      | some thread => exact .bind (acoralRdyThread_balanced thread) fun _ => hend
      | none => exact hend
  | GLOBAL =>
      refine .acquire (.bind (.modify _) fun _ => .bind (mpcpRestore_balanced cur r) fun _ => ?_)
      exact .bind hpost fun err => .release (.pure err)

theorem acoralMpcpDel_balanced (n : Nat) (r : R) :
    (acoralMpcpDel n r : Code R T KernelError).Balanced :=
  .bind (ipcDel_balanced _ _ n _) fun err => .bind memCall_balanced fun _ => .pure err

/-! ### DPCP -/

omit [DecidableEq T] in
theorem acoralDpcpCreate_balanced (pool : PoolAlloc) :
    (acoralDpcpCreate pool : Code R T Unit).Balanced :=
  .bind memCall_balanced fun _ => acoralGetRes_balanced pool

theorem acoralDpcpDel_balanced (n : Nat) (r : R) :
    (acoralDpcpDel n r : Code R T KernelError).Balanced := by
  refine .bind (ipcDel_balanced _ _ n _) fun err => .bind (.update _) fun _ => ?_
  exact .bind memCall_balanced fun _ => .pure err

theorem dpcpLocalLoop_moves (fuel curCpu : Nat) (cur : T) (r : R) (rounds : Nat) :
    (dpcpLocalLoop fuel curCpu cur r rounds).Moves 1 1 := by
  induction rounds with
  | zero => exact .of_balanced .hang
  | succ rounds ih =>
      refine .bind (.of_balanced .get) fun s => .ite (fun _ => ?_) fun _ => ?_
      · refine .bind (.of_balanced (inheritPrio_balanced _ cur)) fun _ => ?_
        -- the thread waits outside of the section
        refine .bind (.of_balanced (.update _)) fun _ => .bind .exit fun _ => ?_
        refine .bind (.of_balanced (acoralSuspendThread_balanced cur)) fun _ => ?_
        exact .bind .enter fun _ => ih
      · exact .bind (.of_balanced (.update _)) fun _ => .of_balanced (.modify _)

omit [DecidableEq T] in
theorem dpcpTest_moves {cur : T} {r : R} {again : Code R T Unit} (hagain : again.Moves 1 1) :
    (dpcpTest cur r again).Moves 1 1 :=
  .bind (.of_balanced .get) fun s => .ite (fun _ => .of_balanced (.update _)) fun _ => hagain

theorem dpcpGlobalLoop_moves (fuel : Nat) (cur : T) (r : R) (rounds : Nat) :
    (dpcpGlobalLoop fuel cur r rounds).Moves 1 1 := by
  induction rounds with
  | zero => exact .of_balanced .hang
  | succ rounds ih =>
      refine .bind (.of_balanced .get) fun s => .ite (fun _ => ?_) fun _ => dpcpTest_moves ih
      refine .bind (.of_balanced (.update _)) fun _ => .bind .exit fun _ => ?_
      refine .bind (.of_balanced (acoralSuspendThread_balanced cur)) fun _ => ?_
      exact .bind .enter fun _ => dpcpTest_moves ih

theorem dpcpMigrate_moves (cur : T) (r : R) : (dpcpMigrate cur r).Moves 1 1 := by
  refine .bind (.of_balanced .get) fun s => .ite (fun _ => ?_) fun _ => .of_balanced (.pure ())
  refine .bind (.of_balanced (.modify _)) fun _ => .bind .exit fun _ => ?_
  refine .bind (.of_balanced .get) fun s => ?_
  exact .bind (.of_balanced (acoralJumpCpu_balanced cur _)) fun _ => .enter

theorem dpcpTake_closes (fuel : Nat) (cur : T) (n : Nat) (r : R) :
    (dpcpTake fuel cur n r).Closes 1 [] :=
  .bind (ceilingTake_balanced fuel cur n r) fun err => .exit (.pure err)

theorem dpcpWake_balanced (k : PendQueue) (r : R) : (dpcpWake k r : Code R T Unit).Balanced := by
  refine .bind (.update _) fun _ => .bind (waitHead_balanced k) fun head => ?_
  cases head with
  | some thread => exact .bind (.update _) fun _ => acoralRdyThread_balanced thread
  | none => exact .pure ()

theorem dpcpRestore_balanced (cur : T) (r : R) : (dpcpRestore cur r).Balanced := by
  refine .bind .get fun s => .ite (fun _ => ?_) fun _ => .modify _
  refine .bind ?_ fun _ => .bind (.modify _) fun _ => .modify _
  exact .ite (fun _ => acoralThreadChangePrio_balanced cur _) fun _ => .pure ()

theorem dpcpReturn_moves (curCpu : Nat) (cur : T) (r : R) (originCpuP : Option ThreadData) :
    (dpcpReturn curCpu cur r originCpuP).Moves 1 1 := by
  refine .bind (.of_balanced .get) fun s => ?_
  cases (s.res r).type with
  | LOCAL => exact .of_balanced (.pure ())
  | GLOBAL =>
      cases originCpuP with
      | none => exact .of_balanced (.pure ())
      | some p =>
          refine .ite (fun _ => ?_) fun _ => .of_balanced (.pure ())
          refine .bind (.of_balanced (.modify _)) fun _ => .bind .exit fun _ => ?_
          exact .bind (.of_balanced (acoralJumpCpu_balanced cur _)) fun _ => .enter

theorem dpcpRelease_closes (curCpu : Nat) (cur : T) (r : R) (originCpuP : Option ThreadData) :
    (dpcpRelease curCpu cur r originCpuP).Closes 1 [] := by
  refine .bind (dpcpRestore_balanced cur r) fun _ => .bind (acoralSemPost_balanced _) fun err => ?_
  exact Moves.closes (dpcpReturn_moves curCpu cur r originCpuP) fun _ => .exit (.pure err)

/-! ### The calls -/

/-- What the reads of a call must find: `acoral_dpcp_pend` and
`acoral_dpcp_post` a resource that is global or of the CPU, and
`acoral_dpcp_post` the caller as its owner. -/
def CriticalCall.finds (c : CriticalCall R T) (curCpu reads : Nat)
    (s : CeilingState R PendQueue T) : Prop :=
  match c with
  | .acoral_dpcp_pend _ _ r => reads = 0 → (s.res r).type = .GLOBAL ∨ (s.res r).cpu = curCpu
  | .acoral_dpcp_post cur r =>
      (reads = 0 → s.owner r = some cur) ∧
      (reads = 1 → (s.res r).type = .GLOBAL ∨ (s.res r).cpu = curCpu)
  | _ => True

instance (c : CriticalCall R T) (curCpu reads : Nat) (s : CeilingState R PendQueue T) :
    Decidable (c.finds curCpu reads s) := by
  unfold CriticalCall.finds
  cases c <;> infer_instance

/-- The depth and the locks are those of the start. -/
def Restored {A : Type} (d : Nat) (held : List (SpinLock R)) :
    Nat → Nat → List (SpinLock R) → A → Prop :=
  fun _ d' held' _ => d' = d ∧ held' = held

theorem acoralDpcpPend_wp (fuel curCpu : Nat) (cur : T) (n : Nat) (r : R) (d : Nat)
    (held : List (SpinLock R)) :
    (acoralDpcpPend fuel curCpu cur n r).wp
      ((CriticalCall.acoral_dpcp_pend cur n r).finds curCpu) 0 d held (Restored d held) := by
  unfold acoralDpcpPend
  rw [Prog.wp_bind, Prog.wp_enterSection, Prog.wp_bind, Prog.wp_get]
  intro s hs
  have hcpu := hs rfl
  revert hcpu
  cases htype : (s.res r).type with
  | LOCAL =>
      intro hcpu
      have hcpu : (s.res r).cpu = curCpu := hcpu.resolve_left (by decide)
      dsimp only
      rw [if_neg (not_not.mpr hcpu)]
      exact Moves.closes (dpcpLocalLoop_moves fuel curCpu cur r fuel)
        (fun _ => dpcpTake_closes fuel cur n r) _ _ d held
  | GLOBAL =>
      intro _
      refine Moves.closes (dpcpMigrate_moves cur r) (fun _ => .bind (.modify _) fun _ => ?_) _ _ d held
      exact Moves.closes (dpcpGlobalLoop_moves fuel cur r fuel) fun _ => dpcpTake_closes fuel cur n r

theorem acoralDpcpPost_wp (curCpu : Nat) (cur : T) (r : R) (d : Nat) (held : List (SpinLock R)) :
    (acoralDpcpPost curCpu cur r).wp
      ((CriticalCall.acoral_dpcp_post cur r).finds curCpu) 0 d held (Restored d held) := by
  unfold acoralDpcpPost
  rw [Prog.wp_bind, Prog.wp_get]
  intro start hstart
  rw [Prog.wp_bind, Prog.wp_enterSection, if_neg (not_not.mpr (hstart.1 rfl)), Prog.wp_bind,
    Prog.wp_get]
  intro s hs
  have hcpu := hs.2 rfl
  revert hcpu
  cases htype : (s.res r).type with
  | LOCAL =>
      intro hcpu
      have hcpu : (s.res r).cpu = curCpu := hcpu.resolve_left (by decide)
      dsimp only
      rw [if_neg (not_not.mpr hcpu)]
      have hrest : (dpcpWake (.dpcp .LOCAL curCpu) r >>= fun _ =>
          dpcpRelease curCpu cur r (start.data cur)).Closes 1 [] :=
        .bind (dpcpWake_balanced _ r) fun _ => dpcpRelease_closes curCpu cur r _
      exact hrest _ _ d held
  | GLOBAL =>
      intro _
      have hrest := fun s' : CeilingState R PendQueue T =>
        Closes.bind (dpcpWake_balanced (T := T) (.dpcp .GLOBAL (s'.res r).cpu) r)
          fun _ => dpcpRelease_closes curCpu cur r (start.data cur)
      exact Closes.bind (.modify _) (fun _ => .bind .get hrest) _ _ d held

/-- Every call whose reads find what they must restores the nesting and the
locks. -/
theorem CriticalCall.code_wp (fuel : Nat) (c : CriticalCall R T) (curCpu d : Nat)
    (held : List (SpinLock R)) :
    (c.code fuel curCpu).wp (c.finds curCpu) 0 d held (Restored d held) := by
  have hdiscard : ∀ {A : Type} {p : Code R T A}, p.Balanced →
      (CriticalCall.code.discard p).Balanced := fun hp => .bind hp fun _ => .pure ()
  have hbalanced : ∀ {p : Code R T Unit}, p.Balanced →
      p.wp (c.finds curCpu) 0 d held (Restored d held) := fun hp => hp _ 0 d held
  cases c with
  | acoral_ipc_alloc pool => exact hbalanced (acoralGetRes_balanced pool)
  | acoral_mutex_del n ipc => exact hbalanced (hdiscard (ipcDel_balanced _ _ n ipc))
  | acoral_mutex_trypend cur n ipc => exact hbalanced (hdiscard (acoralMutexTrypend_balanced cur n ipc))
  | acoral_mutex_pend cur n ipc => exact hbalanced (hdiscard (acoralMutexPend_balanced fuel cur n ipc))
  | acoral_mutex_post cur ipc => exact hbalanced (hdiscard (acoralMutexPost_balanced cur ipc))
  | acoral_sem_del n ipc => exact hbalanced (hdiscard (ipcDel_balanced _ _ n ipc))
  | acoral_sem_trypend n ipc => exact hbalanced (hdiscard (acoralSemTrypend_balanced n ipc))
  | acoral_sem_pends cur n ipc => exact hbalanced (hdiscard (acoralSemPends_balanced fuel cur n ipc))
  | acoral_sem_pend cur n ipc => exact hbalanced (hdiscard (acoralSemPend_balanced fuel cur n ipc))
  | acoral_sem_posts ipc => exact hbalanced (hdiscard (acoralSemPosts_balanced fuel ipc))
  | acoral_sem_post ipc => exact hbalanced (hdiscard (acoralSemPost_balanced ipc))
  | acoral_sem_getnum ipc => exact hbalanced (hdiscard (acoralSemGetnum_balanced ipc))
  | acoral_mpcp_create pool => exact hbalanced (acoralMpcpCreate_balanced pool)
  | acoral_mpcp_pend cur n r =>
      exact hbalanced (hdiscard (acoralMpcpPend_balanced fuel curCpu cur n r))
  | acoral_mpcp_post cur r => exact hbalanced (hdiscard (acoralMpcpPost_balanced curCpu cur r))
  | acoral_mpcp_del n r => exact hbalanced (hdiscard (acoralMpcpDel_balanced n r))
  | acoral_dpcp_create pool => exact hbalanced (acoralDpcpCreate_balanced pool)
  | acoral_dpcp_pend cur n r => exact Prog.wp_bind.mpr (acoralDpcpPend_wp fuel curCpu cur n r d held)
  | acoral_dpcp_post cur r => exact Prog.wp_bind.mpr (acoralDpcpPost_wp curCpu cur r d held)
  | acoral_dpcp_del n r => exact hbalanced (hdiscard (acoralDpcpDel_balanced n r))

end ACoral.Critical
