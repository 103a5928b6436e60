import ACoral.Proofs.Ceiling.Ops
import ACoral.Proofs.Critical.Balance

/-!
# `ACoral.Proofs.Critical.Run`: nesting and locks over whole runs

- `critical_balanced`: in every run in which `acoral_dpcp_pend` and
  `acoral_dpcp_post` do not come to an error exit (`criticalGuard`), every
  call returns at the nesting it began at, on whatever CPUs it ran in
  between, and whoever is in no call has no lock.
- `post_not_owner`: `acoral_dpcp_post` of a resource of somebody else leaves
  the CPU in a critical section, and so does `acoral_dpcp_pend` of a local
  resource of another CPU.
-/

set_option autoImplicit false

namespace ACoral.Critical

open Lib (Prog run guarded)

variable {C R T : Type} [DecidableEq C] [DecidableEq R] [DecidableEq T]

/-- A read of a call finds what it must. -/
def criticalGuard (x : CriticalState C R T) : CriticalOp C R T → Bool
  | .step cpu =>
      match (x.running cpu).bind x.frame with
      | some f => !f.rest.isRead || decide (f.call.finds f.curCpu f.reads x.data)
      | none   => true
  | _         => true

/-- No calls so far. -/
structure CriticalState.Fresh (x : CriticalState C R T) : Prop where
  frame : ∀ c, x.frame c = none
  holder : ∀ l, x.holder l = none
  log : x.log = []
  /-- nobody runs on two CPUs -/
  apart : ∀ a < CFG_MAX_CPU, ∀ b < CFG_MAX_CPU, ∀ c, x.running a = some c →
    x.running b = some c → a = b

/-- The activity `c` in the call `f` is `d` sections deep and has the locks
`held`. -/
structure FrameOk (x : CriticalState C R T) (c : C) (f : Frame R T) (d : Nat)
    (held : List (SpinLock R)) : Prop where
  /-- the rest of the code leaves as many sections, and gives the locks back -/
  code : f.rest.wp (f.call.finds f.curCpu) f.reads d held (Restored 0 [])
  nodup : held.Nodup
  holder : ∀ l, x.holder l = some c ↔ l ∈ held
  running : ∀ cpu < CFG_MAX_CPU, x.running cpu = some c → x.criticalNesting cpu = f.entry + d
  /-- who does not run is in no section -/
  parked : (∀ cpu < CFG_MAX_CPU, x.running cpu ≠ some c) → f.entry + d = 0

/-- The invariant of a run. -/
structure CriticalInv (x : CriticalState C R T) : Prop where
  apart : ∀ a < CFG_MAX_CPU, ∀ b < CFG_MAX_CPU, ∀ c, x.running a = some c →
    x.running b = some c → a = b
  frame : ∀ c f, x.frame c = some f → ∃ d held, FrameOk x c f d held
  idle : ∀ c, x.frame c = none → ∀ l, x.holder l ≠ some c
  log : ∀ e ∈ x.log, e.exit = e.entry

variable {x y : CriticalState C R T} {c : C} {f : Frame R T} {d : Nat} {held : List (SpinLock R)}

omit [DecidableEq C] [DecidableEq T] in
theorem CriticalState.Fresh.inv (h : x.Fresh) : CriticalInv x where
  apart := h.apart
  frame c f hf := by rw [h.frame c] at hf; cases hf
  idle c _ l := by rw [h.holder l]; simp
  log e he := by rw [h.log] at he; cases he

/-! ### One instruction -/

omit [DecidableEq C] [DecidableEq T] in
/-- An activity that does not act keeps its place, when the nesting of its
CPU and its locks are as before. -/
theorem FrameOk.other (h : FrameOk x c f d held) (hrunning : y.running = x.running)
    (hnesting : ∀ cpu < CFG_MAX_CPU, x.running cpu = some c →
      y.criticalNesting cpu = x.criticalNesting cpu)
    (hholder : ∀ l, y.holder l = some c ↔ x.holder l = some c) : FrameOk y c f d held where
  code := h.code
  nodup := h.nodup
  holder l := (hholder l).trans (h.holder l)
  running cpu hcpu hrun := by
    rw [hrunning] at hrun
    rw [hnesting cpu hcpu hrun]
    exact h.running cpu hcpu hrun
  parked hpark := h.parked fun cpu hcpu => by
    have := hpark cpu hcpu
    rwa [hrunning] at this

/-- The state after an instruction of `c` on `cpu`: the others keep what they
have. -/
structure ActsAs (x y : CriticalState C R T) (cpu : Nat) (c : C) : Prop where
  running : y.running = x.running
  nesting : ∀ other, other ≠ cpu → y.criticalNesting other = x.criticalNesting other
  frame : ∀ other, other ≠ c → y.frame other = x.frame other
  holder : ∀ other, other ≠ c → ∀ l, y.holder l = some other ↔ x.holder l = some other

omit [DecidableEq C] [DecidableEq T] in
/-- It is enough to look at the one that acts. -/
theorem CriticalInv.act (h : CriticalInv x) {cpu : Nat} (hcpu : cpu < CFG_MAX_CPU)
    (hrun : x.running cpu = some c) (hact : ActsAs x y cpu c) (hlog : ∀ e ∈ y.log, e.exit = e.entry)
    (hself : ∀ f, y.frame c = some f → ∃ d held, FrameOk y c f d held)
    (hidle : y.frame c = none → ∀ l, y.holder l ≠ some c) : CriticalInv y where
  apart := by rw [hact.running]; exact h.apart
  frame other g hg := by
    by_cases hother : other = c
    · subst hother
      exact hself g hg
    · rw [hact.frame other hother] at hg
      obtain ⟨d, held, hok⟩ := h.frame other g hg
      refine ⟨d, held, hok.other hact.running (fun p hp hrunp => ?_) (hact.holder other hother)⟩
      refine hact.nesting p ?_
      rintro rfl
      rw [hrun, Option.some.injEq] at hrunp
      exact hother hrunp.symm
  idle other hnone l := by
    by_cases hother : other = c
    · subst hother
      exact hidle hnone l
    · rw [hact.frame other hother] at hnone
      exact fun hl => h.idle other hnone l ((hact.holder other hother l).mp hl)
  log := hlog

omit [DecidableEq C] [DecidableEq T] in
/-- The call goes on with `g`. -/
theorem CriticalInv.continue (h : CriticalInv x) {cpu : Nat} (hcpu : cpu < CFG_MAX_CPU)
    (hrun : x.running cpu = some c) (hact : ActsAs x y cpu c) (hlog : y.log = x.log)
    {g : Frame R T} (hframe : y.frame c = some g) (hok : FrameOk y c g d held) : CriticalInv y := by
  refine h.act hcpu hrun hact (hlog ▸ h.log) (fun f hf => ?_) fun hnone => ?_
  · rw [hframe, Option.some.injEq] at hf
    exact ⟨d, held, hf ▸ hok⟩
  · rw [hframe] at hnone
    cases hnone

omit [DecidableEq C] [DecidableEq T] in
/-- The activity that runs on a CPU is not parked. -/
theorem FrameOk.of_running (hcode : f.rest.wp (f.call.finds f.curCpu) f.reads d held (Restored 0 []))
    (hnodup : held.Nodup) (hholder : ∀ l, x.holder l = some c ↔ l ∈ held) {cpu : Nat}
    (hcpu : cpu < CFG_MAX_CPU) (hrun : x.running cpu = some c)
    (hone : ∀ other < CFG_MAX_CPU, x.running other = some c → other = cpu)
    (hnesting : x.criticalNesting cpu = f.entry + d) : FrameOk x c f d held where
  code := hcode
  nodup := hnodup
  holder := hholder
  running other hother hrun' := by rw [hone other hother hrun', hnesting]
  parked hpark := absurd hrun (hpark cpu hcpu)

omit [DecidableEq T] in
theorem criticalStep_inv (h : CriticalInv x) {cpu : Nat} (hcpu : cpu < CFG_MAX_CPU)
    (hrun : x.running cpu = some c) (hf : x.frame c = some f)
    (hguard : f.rest.isRead = true → f.call.finds f.curCpu f.reads x.data)
    (hstep : criticalStep x cpu c f = some y) : CriticalInv y := by
  obtain ⟨d, held, hok⟩ := h.frame c f hf
  have hone : ∀ other < CFG_MAX_CPU, x.running other = some c → other = cpu :=
    fun other hother hr => h.apart other hother cpu hcpu c hr hrun
  have hnesting := hok.running cpu hcpu hrun
  have hcode := hok.code
  unfold criticalStep at hstep
  revert hstep hguard hcode
  cases hrest : f.rest with
  | ret a =>
      intro _ hstep hcode
      obtain ⟨hd, hheld⟩ := hcode
      cases hstep
      refine h.act hcpu hrun ⟨rfl, fun _ _ => rfl, fun other hne => ?_, fun _ _ _ => Iff.rfl⟩ ?_ ?_ ?_
      · exact Function.update_of_ne hne _ _
      · intro e he
        rcases List.mem_cons.mp he with rfl | he
        · -- the depth is 0 where the call returns
          exact hnesting.trans (by rw [hd, Nat.add_zero])
        · exact h.log e he
      · intro g hg
        simp [CriticalState.setFrame] at hg
      · intro _ l hl
        have := (hok.holder l).mp hl
        rw [hheld] at this
        cases this
  | enter k =>
      intro _ hstep hcode
      cases hstep
      refine h.continue hcpu hrun ⟨rfl, fun other hne => Function.update_of_ne hne _ _,
        fun other hne => Function.update_of_ne hne _ _, fun _ _ _ => Iff.rfl⟩ rfl
        (Function.update_self _ _ _) (.of_running hcode hok.nodup hok.holder hcpu hrun hone ?_)
      show Function.update x.criticalNesting cpu (x.criticalNesting cpu + 1) cpu = _
      rw [Function.update_self, hnesting]
      rfl
  | exit k =>
      intro _ hstep hcode
      obtain ⟨hd, hcode⟩ := hcode
      cases hstep
      refine h.continue hcpu hrun ⟨rfl, fun other hne => Function.update_of_ne hne _ _,
        fun other hne => Function.update_of_ne hne _ _, fun _ _ _ => Iff.rfl⟩ rfl
        (Function.update_self _ _ _) (.of_running hcode hok.nodup hok.holder hcpu hrun hone ?_)
      show Function.update x.criticalNesting cpu (x.criticalNesting cpu - 1) cpu = f.entry + (d - 1)
      rw [Function.update_self, hnesting]
      omega
  | lock l k =>
      intro _ hstep hcode
      dsimp only at hstep
      split at hstep
      case isFalse => cases hstep
      case isTrue hfree =>
      have hnot : l ∉ held := fun hl => by
        rw [(hok.holder l).mpr hl] at hfree
        cases hfree
      cases hstep
      refine h.continue hcpu hrun ⟨rfl, fun _ _ => rfl,
        fun other hne => Function.update_of_ne hne _ _, fun other hne l' => ?_⟩ rfl
        (Function.update_self _ _ _) (.of_running (hcode hnot) (List.nodup_cons.mpr ⟨hnot, hok.nodup⟩)
          (fun l' => ?_) hcpu hrun hone hnesting)
      · show Function.update x.holder l (some c) l' = some other ↔ _
        by_cases hl : l' = l
        · subst hl
          simp [hfree, Ne.symm hne]
        · rw [Function.update_of_ne hl]
      · show Function.update x.holder l (some c) l' = some c ↔ _
        by_cases hl : l' = l
        · subst hl
          simp
        · rw [Function.update_of_ne hl, hok.holder l', List.mem_cons, or_iff_right hl]
  | unlock l k =>
      intro _ hstep hcode
      obtain ⟨hl, hcode⟩ := hcode
      cases hstep
      refine h.continue hcpu hrun ⟨rfl, fun _ _ => rfl,
        fun other hne => Function.update_of_ne hne _ _, fun other hne l' => ?_⟩ rfl
        (Function.update_self _ _ _) (.of_running hcode (hok.nodup.erase l)
          (fun l' => ?_) hcpu hrun hone hnesting)
      · show Function.update x.holder l none l' = some other ↔ _
        by_cases hl' : l' = l
        · subst hl'
          rw [Function.update_self, (hok.holder l').mpr hl]
          simp [Ne.symm hne]
        · rw [Function.update_of_ne hl']
      · show Function.update x.holder l none l' = some c ↔ _
        rw [hok.nodup.mem_erase_iff, ← hok.holder l']
        by_cases hl' : l' = l
        · subst hl'
          simp
        · rw [Function.update_of_ne hl', and_iff_right hl']
  | read g =>
      intro hguard hstep hcode
      cases hstep
      exact h.continue hcpu hrun ⟨rfl, fun _ _ => rfl,
        fun other hne => Function.update_of_ne hne _ _, fun _ _ _ => Iff.rfl⟩ rfl
        (Function.update_self _ _ _)
        (.of_running (hcode cpu x.data (hguard rfl)) hok.nodup hok.holder hcpu hrun hone hnesting)
  | write g k =>
      intro _ hstep hcode
      obtain ⟨data, -, rfl⟩ := Option.map_eq_some_iff.mp hstep
      exact h.continue hcpu hrun ⟨rfl, fun _ _ => rfl,
        fun other hne => Function.update_of_ne hne _ _, fun _ _ _ => Iff.rfl⟩ rfl
        (Function.update_self _ _ _)
        (.of_running hcode hok.nodup hok.holder hcpu hrun hone hnesting)

/-! ### The other steps -/

omit [DecidableEq C] [DecidableEq T] in
/-- User code on a CPU changes the nesting of that CPU. -/
theorem CriticalInv.user (h : CriticalInv x) {cpu : Nat} (hcpu : cpu < CFG_MAX_CPU)
    (hrun : x.running cpu = some c) (hf : (x.frame c).isNone = true) (nesting : Nat) :
    CriticalInv { x with criticalNesting := Function.update x.criticalNesting cpu nesting } := by
  have hnone := Option.isNone_iff_eq_none.mp hf
  refine h.act hcpu hrun ⟨rfl, fun other hne => Function.update_of_ne hne _ _, fun _ _ => rfl,
    fun _ _ _ => Iff.rfl⟩ h.log (fun f hf => ?_) fun _ => h.idle c hnone
  rw [hnone] at hf
  cases hf

/-- A call begins. -/
theorem CriticalInv.call (h : CriticalInv x) {cpu : Nat} (hcpu : cpu < CFG_MAX_CPU)
    (hrun : x.running cpu = some c) (hf : (x.frame c).isNone = true) (fuel : Nat)
    (call : CriticalCall R T) :
    CriticalInv (x.setFrame c (some
      { call := call, curCpu := cpu, entry := x.criticalNesting cpu, reads := 0
        rest := call.code fuel cpu })) := by
  have hidle := h.idle c (Option.isNone_iff_eq_none.mp hf)
  refine h.continue hcpu hrun ⟨rfl, fun _ _ => rfl, fun other hne => Function.update_of_ne hne _ _,
    fun _ _ _ => Iff.rfl⟩ rfl (Function.update_self _ _ _)
    (.of_running (call.code_wp fuel cpu 0 []) List.nodup_nil (fun l => ?_) hcpu
      hrun (fun other hother hr => h.apart other hother cpu hcpu c hr hrun) rfl)
  simp [CriticalState.setFrame, hidle l]

omit [DecidableEq C] [DecidableEq T] in
/-- A CPU changes to another activity. -/
theorem CriticalInv.switch (h : CriticalInv x) {cpu : Nat} (hzero : x.criticalNesting cpu = 0)
    {next : C} (hnext : ∀ other < CFG_MAX_CPU, x.running other ≠ some next) :
    CriticalInv { x with running := Function.update x.running cpu (some next) } := by
  have hrunning : ∀ {p : Nat} {c' : C}, Function.update x.running cpu (some next) p = some c' →
      p = cpu ∧ c' = next ∨ p ≠ cpu ∧ x.running p = some c' := by
    intro p c' hp
    by_cases hcase : p = cpu
    · subst hcase
      rw [Function.update_self, Option.some.injEq] at hp
      exact Or.inl ⟨rfl, hp.symm⟩
    · exact Or.inr ⟨hcase, by rwa [Function.update_of_ne hcase] at hp⟩
  constructor
  case apart =>
    intro a ha b hb c' hra hrb
    rcases hrunning hra with ⟨hae, hac⟩ | ⟨-, hxa⟩ <;>
      rcases hrunning hrb with ⟨hbe, hbc⟩ | ⟨-, hxb⟩
    · exact hae.trans hbe.symm
    · exact absurd (hac ▸ hxb) (hnext b hb)
    · exact absurd (hbc ▸ hxa) (hnext a ha)
    · exact h.apart a ha b hb c' hxa hxb
  case frame =>
    intro c' f hf
    obtain ⟨d, held, hok⟩ := h.frame c' f hf
    refine ⟨d, held, hok.code, hok.nodup, hok.holder, fun p hp hr => ?_, fun hpark => ?_⟩
    · rcases hrunning hr with ⟨rfl, rfl⟩ | ⟨-, hr⟩
      · -- `next` comes with the nesting 0 that it left its last CPU at
        exact hzero.trans (hok.parked hnext).symm
      · exact hok.running p hp hr
    · by_cases hwas : ∃ p < CFG_MAX_CPU, x.running p = some c'
      · obtain ⟨p, hp, hr⟩ := hwas
        by_cases hcase : p = cpu
        · exact (hok.running p hp hr).symm.trans (hcase ▸ hzero)
        · refine absurd ?_ (hpark p hp)
          exact (Function.update_of_ne hcase _ _).trans hr
      · exact hok.parked fun p hp hr => hwas ⟨p, hp, hr⟩
  case idle => exact h.idle
  case log => exact h.log

omit [DecidableEq C] [DecidableEq T] in
/-- The data is not what nesting and locks depend on. -/
theorem CriticalInv.env (h : CriticalInv x) (data : CeilingState R PendQueue T) :
    CriticalInv { x with data := data } where
  apart := h.apart
  frame c f hf := by
    obtain ⟨d, held, hok⟩ := h.frame c f hf
    exact ⟨d, held, hok.code, hok.nodup, hok.holder, hok.running, hok.parked⟩
  idle := h.idle
  log := h.log

/-! ### Runs -/

theorem criticalRun_inv {fuel : Nat} {op : CriticalOp C R T} (h : CriticalInv x)
    (hguard : criticalGuard x op = true) (hstep : criticalRun fuel x op = some y) :
    CriticalInv y := by
  cases op with
  | call cpu call =>
      obtain ⟨c, hrun, hstep⟩ := Option.bind_eq_some_iff.mp hstep
      split at hstep
      case isFalse => cases hstep
      case isTrue hcase =>
      cases hstep
      exact h.call hcase.1 hrun hcase.2 fuel call
  | step cpu =>
      obtain ⟨c, hrun, hstep⟩ := Option.bind_eq_some_iff.mp hstep
      split at hstep
      case isFalse => cases hstep
      case isTrue hcpu =>
      obtain ⟨f, hf, hstep⟩ := Option.bind_eq_some_iff.mp hstep
      refine criticalStep_inv h hcpu hrun hf (fun hread => ?_) hstep
      unfold criticalGuard at hguard
      simpa [hrun, hf, hread] using hguard
  | switch cpu next =>
      unfold criticalRun at hstep
      dsimp only at hstep
      split at hstep
      case isFalse => cases hstep
      case isTrue hcase =>
      cases hstep
      exact h.switch hcase.2.1 hcase.2.2
  | enter cpu =>
      obtain ⟨c, hrun, hstep⟩ := Option.bind_eq_some_iff.mp hstep
      split at hstep
      case isFalse => cases hstep
      case isTrue hcase =>
      cases hstep
      exact h.user hcase.1 hrun hcase.2 _
  | exit cpu =>
      obtain ⟨c, hrun, hstep⟩ := Option.bind_eq_some_iff.mp hstep
      split at hstep
      case isFalse => cases hstep
      case isTrue hcase =>
      cases hstep
      exact h.user hcase.1 hrun hcase.2 _
  | env data =>
      cases hstep
      exact h.env data

/-- Every call returns at the nesting it began at, and with no lock. -/
theorem critical_balanced {fuel : Nat} {ops : List (CriticalOp C R T)} (hx : x.Fresh)
    (hrun : run (guarded criticalGuard (criticalRun fuel)) x ops = some y) :
    (∀ e ∈ y.log, e.exit = e.entry) ∧ ∀ c, y.frame c = none → ∀ l, y.holder l ≠ some c := by
  have hinv : CriticalInv y :=
    Lib.guarded_induct (P := CriticalInv) (fun s i s' hs hguard hstep => criticalRun_inv hs hguard hstep)
      hx.inv hrun
  exact ⟨hinv.log, hinv.idle⟩

/-! ### One thread on the first CPU -/

/-- Thread 0 runs, and there is one resource on the CPU `resCpu`. -/
def oneRunning (type : CeilingType) (resCpu : Nat) : CriticalState (Fin 2) Unit (Fin 2) where
  data := .start (readyThreads (fun _ => 5) fun _ => 0) (fun _ => 0)
    (fun _ => .ACORAL_PREEMPT_LOCAL) (fun _ => none) fun _ => (type, resCpu, 3)
  criticalNesting := fun _ => 0
  holder := fun _ => none
  running := fun cpu => if cpu = 0 then some 0 else none
  frame := fun _ => none
  log := []

theorem oneRunning_fresh (type : CeilingType) (resCpu : Nat) : (oneRunning type resCpu).Fresh where
  frame _ := rfl
  holder _ := rfl
  log := rfl
  apart := by
    have hzero : ∀ {p : Nat} {c : Fin 2},
        (if p = 0 then some (0 : Fin 2) else none) = some c → p = 0 := by
      intro p c hp
      split at hp
      · assumption
      · cases hp
    exact fun a _ b _ c ha hb => (hzero ha).trans (hzero hb).symm

/-- A call and `n` instructions of it. -/
def callRun (call : CriticalCall Unit (Fin 2)) (n : Nat) : List (CriticalOp (Fin 2) Unit (Fin 2)) :=
  .call 0 call :: List.replicate n (.step 0)

/-- The thread takes the resource, and is back at the nesting 0. -/
theorem critical_balanced_pend :
    ∃ y, run (guarded criticalGuard (criticalRun 4)) (oneRunning .GLOBAL 0)
        (callRun (.acoral_dpcp_pend 0 0 ()) 18) = some y ∧
      y.log.map (fun e => (e.entry, e.exit)) = [(0, 0)] ∧
      (∀ e ∈ y.log, e.exit = e.entry) ∧ ∀ c, y.frame c = none → ∀ l, y.holder l ≠ some c := by
  have heval : (run (guarded criticalGuard (criticalRun 4)) (oneRunning .GLOBAL 0)
      (callRun (.acoral_dpcp_pend 0 0 ()) 18)).any
        (fun y => decide (y.log.map (fun e => (e.entry, e.exit)) = [(0, 0)])) = true := by
    decide +kernel
  obtain ⟨y, hrun, hy⟩ := (Option.any_eq_true ..).mp heval
  exact ⟨y, hrun, of_decide_eq_true hy, critical_balanced (oneRunning_fresh _ _) hrun⟩

/-- It gives back a resource that it does not own, and it takes a local one of
the other CPU: both calls return with the nesting 1, and the interrupts stay
disabled. -/
theorem post_not_owner :
    ((oneRunning .GLOBAL 0).Fresh ∧
      ∃ y, run (criticalRun 4) (oneRunning .GLOBAL 0) (callRun (.acoral_dpcp_post 0 ()) 3) = some y ∧
        y.frame 0 = none ∧ y.criticalNesting 0 = 1 ∧ ∃ e ∈ y.log, e.entry = 0 ∧ e.exit = 1) ∧
    (oneRunning .LOCAL 1).Fresh ∧
      ∃ y, run (criticalRun 4) (oneRunning .LOCAL 1) (callRun (.acoral_dpcp_pend 0 0 ()) 3) = some y ∧
        y.frame 0 = none ∧ y.criticalNesting 0 = 1 ∧ ∃ e ∈ y.log, e.entry = 0 ∧ e.exit = 1 := by
  have hsplit : ∀ {run : Option (CriticalState (Fin 2) Unit (Fin 2))},
      run.any (fun y => (y.frame 0).isNone && decide (y.criticalNesting 0 = 1) &&
        y.log.any fun e => decide (e.entry = 0 ∧ e.exit = 1)) = true →
      ∃ y, run = some y ∧ y.frame 0 = none ∧ y.criticalNesting 0 = 1 ∧
        ∃ e ∈ y.log, e.entry = 0 ∧ e.exit = 1 := by
    intro run heval
    obtain ⟨y, hrun, hy⟩ := (Option.any_eq_true ..).mp heval
    simp only [Bool.and_eq_true, Option.isNone_iff_eq_none, decide_eq_true_eq, List.any_eq_true] at hy
    exact ⟨y, hrun, hy.1.1, hy.1.2, hy.2⟩
  refine ⟨⟨oneRunning_fresh _ _, hsplit ?_⟩, oneRunning_fresh _ _, hsplit ?_⟩ <;> decide +kernel

end ACoral.Critical
