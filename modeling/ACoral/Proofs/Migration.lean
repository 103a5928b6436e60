import ACoral.Proofs.SmpReady

/-!
# `ACoral.Proofs.Migration`: what a migration does to a thread

A call of `acoral_moveto_thread` runs to its end, with the commands it sends,
among any other steps of the system that are not about the thread. The command
that arrives at the target readies the thread, whatever it was before.

* `SmpPc.Quiet`: a call that does not change the thread.
* `Carrier`: the call or command that carries the migration on.
* `Moving`: where a migration can be. `Moving.step` is the step lemma.
* `moveto_iff`: the migration keeps the scheduling state of the thread exactly
  when the thread was READY, or on the target already.
-/

set_option autoImplicit false

namespace ACoral

variable {A T : Type} [DecidableEq A] [DecidableEq T]

/-! ### What is not about the thread -/

/-- The thread that a command is about. -/
def SmpCmd.thread : SmpCmd T → T
  | .ACORAL_IPI_THREAD_READY t    => t
  | .ACORAL_IPI_THREAD_SUSPEND t  => t
  | .ACORAL_IPI_THREAD_MOVETO t _ => t
  | .ACORAL_IPI_THREAD_MOVEIN t   => t

/-- A call that does not change the CPU or the READY and SUSPEND flags of the
thread any more. It may still give back its lock. -/
def SmpPc.Quiet (t : T) : SmpPc T → Prop
  | .idle            => True
  | .rdy u next      => u ≠ t ∧ next.Quiet t
  | .rdyCpu u next   => u ≠ t ∧ next.Quiet t
  | .rdyAdd u next   => u ≠ t ∧ next.Quiet t
  | .suspend u next  => u ≠ t ∧ next.Quiet t
  | .suspendCpu u next => u ≠ t ∧ next.Quiet t
  | .suspendDel u next => u ≠ t ∧ next.Quiet t
  | .send _ cmd next => cmd.thread ≠ t ∧ next.Quiet t
  | .moveto u _      => u ≠ t
  | .movetoLock u _ _ => u ≠ t
  | .movetoCpu u _ _ => u ≠ t
  | .movetoMark u _ _ => u ≠ t
  | .movetoEnd _ _   => True
  | .movein u        => u ≠ t
  | .moveinCpu u     => u ≠ t
  | .unlock _        => True

/-- No call and no command in flight is about the thread. -/
structure SmpState.Quiet (s : SmpState A T) (t : T) : Prop where
  call : ∀ a, (s.call a).pc.Quiet t
  mail : ∀ c cmd, s.mail c = some cmd → cmd.thread ≠ t

/-- The thread is on a CPU, and READY or SUSPEND. -/
structure CpuState.At (k : CpuState T) (t : T) (cpu : Nat) (ready : Bool) : Prop where
  cpu : (k.sched.thread t).cpu = cpu
  isReady : (k.sched.thread t).isReady = ready
  isSuspended : (k.sched.thread t).isSuspended = !ready

namespace CpuState.At

variable {k k' : CpuState T} {t u : T} {cpu cur : Nat} {ready : Bool}

omit [DecidableEq T] in
/-- It depends on the control block of the thread only. -/
theorem congr (h : k.At t cpu ready) (hthread : k'.sched.thread t = k.sched.thread t) :
    k'.At t cpu ready := by
  constructor
  · rw [hthread]
    exact h.cpu
  · rw [hthread]
    exact h.isReady
  · rw [hthread]
    exact h.isSuspended

omit [DecidableEq T] in
theorem sameReady (h : k.At t cpu ready) (hsame : SameReady k.sched k'.sched) :
    k'.At t cpu ready :=
  ⟨(hsame.cpu t).trans h.cpu, (hsame.ready t).trans h.isReady,
    (hsame.suspended t).trans h.isSuspended⟩

omit [DecidableEq T] in
/-- It was not killed. -/
theorem not_exit (h : k.At t cpu ready) : k.state t ≠ ACORAL_THREAD_STATE_EXIT := fun hexit => by
  have hready := h.isReady
  have hsuspended := h.isSuspended
  rw [Tcb.isReady, show (k.sched.thread t).state = _ from hexit] at hready
  rw [Tcb.isSuspended, show (k.sched.thread t).state = _ from hexit, ← hready] at hsuspended
  exact absurd hsuspended (by decide)

/-- Another thread changes. -/
theorem setState (h : k.At t cpu ready) (hne : t ≠ u) (state : BitVec 8) :
    (k.setState u state).At t cpu ready :=
  h.congr (Function.update_of_ne hne ..)

/-- A switch of context keeps it. -/
theorem switchContext (h : k.At t cpu ready) (hswitch : acoralSwitchContext cur k = some k') :
    k'.At t cpu ready := by
  by_cases hexit : k.state (k.running cur) = ACORAL_THREAD_STATE_EXIT
  · -- the thread that was killed is another one
    have hne : t ≠ k.running cur := fun he => h.not_exit (he ▸ hexit)
    obtain ⟨next, -, hk'⟩ := Option.map_eq_some_iff.mp hswitch
    have hselect : SameReady k.sched (acoralSelectThread cur (k.setNeedSched cur false).sched) :=
      (SameReady.setNeedSched k false).trans (SameReady.selectThread _)
    have hexit' : (acoralSelectThread cur (k.setNeedSched cur false).sched).thread
        (k.running cur) = k.sched.thread (k.running cur) := rfl
    split at hk'
    · split at hk'
      · subst hk'
        refine CpuState.At.setState (h.sameReady (hselect.trans ?_)) hne _
        exact SameReady.setRunningThread cur { k.setNeedSched cur false with
          sched := acoralSelectThread cur (k.setNeedSched cur false).sched } next
      · rename_i hnot
        exact absurd hexit hnot
    · subst hk'
      exact h.sameReady hselect
  · exact h.sameReady (acoralSwitchContext_cases hexit hswitch).1

/-- `acoral_sched_rdyqueue_add` of the thread. -/
theorem readied (h : k.At t cpu ready) :
    (k.setSched (acoralSchedRdyqueueAdd cur k.sched t)).At t cpu true := by
  have hflag := hasFlag_readyState (k.sched.thread t).state
  refine ⟨?_, ?_, ?_⟩
  · simp [CpuState.setSched, acoralSchedRdyqueueAdd, h.cpu]
  · simp [CpuState.setSched, acoralSchedRdyqueueAdd, Tcb.isReady, hflag]
  · simp [CpuState.setSched, acoralSchedRdyqueueAdd, Tcb.isSuspended, hflag]

/-- `acoral_sched_rdyqueue_del` of the thread. -/
theorem suspended (h : k.At t cpu ready) :
    (k.setSched (acoralSchedRdyqueueDel cur k.sched t)).At t cpu false := by
  have hflag := hasFlag_suspendState (k.sched.thread t).state
  refine ⟨?_, ?_, ?_⟩
  · simp [CpuState.setSched, acoralSchedRdyqueueDel, h.cpu]
  · simp [CpuState.setSched, acoralSchedRdyqueueDel, Tcb.isReady, hflag]
  · simp [CpuState.setSched, acoralSchedRdyqueueDel, Tcb.isSuspended, hflag]

/-- The write of its CPU. -/
theorem moved (h : k.At t cpu ready) : (k.setCpu t cur).At t cur ready := by
  refine ⟨?_, ?_, ?_⟩
  · simp [CpuState.setCpu, CpuState.setSched]
  · simpa [CpuState.setCpu, CpuState.setSched, Tcb.isReady] using h.isReady
  · simpa [CpuState.setCpu, CpuState.setSched, Tcb.isSuspended] using h.isSuspended

end CpuState.At

/-! ### Steps of other calls -/

section Quiet

variable {s s' : SmpState A T} {a : A} {t : T} {cpu : Nat} {ready : Bool}

/-- A step of a call that is not about the thread. -/
theorem quiet_step (hquiet : (s.call a).pc.Quiet t) (hat : s.kernel.At t cpu ready)
    (hstep : smpCallStep s a = some s') :
    s'.kernel.At t cpu ready ∧
      (∃ pc, s'.call = Function.update s.call a { s.call a with pc := pc } ∧ pc.Quiet t) ∧
      ∀ c, s'.mail c = s.mail c ∨
        s.mail c = none ∧ ∃ cmd, s'.mail c = some cmd ∧ cmd.thread ≠ t := by
  -- all but the sending of a command
  have hgoto : ∀ (pc : SmpPc T) (k : CpuState T), pc.Quiet t → k.At t cpu ready →
      s.goto a pc k = s' → s'.kernel.At t cpu ready ∧
      (∃ pc, s'.call = Function.update s.call a { s.call a with pc := pc } ∧ pc.Quiet t) ∧
      ∀ c, s'.mail c = s.mail c ∨
        s.mail c = none ∧ ∃ cmd, s'.mail c = some cmd ∧ cmd.thread ≠ t := by
    rintro pc k hpc hk rfl
    exact ⟨hk, ⟨pc, rfl, hpc⟩, fun c => Or.inl rfl⟩
  rw [smpCallStep] at hstep
  simp only at hstep
  cases hpc : (s.call a).pc with
  | idle => simp [hpc] at hstep
  | rdy u next =>
      rw [hpc] at hquiet
      simp only [hpc] at hstep
      split at hstep
      · exact hgoto (.rdyCpu u next) _ hquiet hat (Option.some.inj hstep)
      · exact hgoto next _ hquiet.2 hat (Option.some.inj hstep)
  | rdyCpu u next =>
      rw [hpc] at hquiet
      simp only [hpc] at hstep
      split at hstep
      · exact hgoto (.send (s.cpu u) (.ACORAL_IPI_THREAD_READY u) next) _ hquiet hat (Option.some.inj hstep)
      · exact hgoto (.rdyAdd u next) _ hquiet hat (Option.some.inj hstep)
  | rdyAdd u next =>
      rw [hpc] at hquiet
      simp only [hpc] at hstep
      refine hgoto next _ hquiet.2 (hat.congr ?_) (Option.some.inj hstep)
      exact Function.update_of_ne hquiet.1.symm ..
  | suspend u next =>
      rw [hpc] at hquiet
      simp only [hpc] at hstep
      split at hstep
      · exact hgoto (.suspendCpu u next) _ hquiet hat (Option.some.inj hstep)
      · exact hgoto next _ hquiet.2 hat (Option.some.inj hstep)
  | suspendCpu u next =>
      rw [hpc] at hquiet
      simp only [hpc] at hstep
      split at hstep
      · exact hgoto (.send (s.cpu u) (.ACORAL_IPI_THREAD_SUSPEND u) next) _ hquiet hat (Option.some.inj hstep)
      · exact hgoto (.suspendDel u next) _ hquiet hat (Option.some.inj hstep)
  | suspendDel u next =>
      rw [hpc] at hquiet
      simp only [hpc] at hstep
      refine hgoto next _ hquiet.2 (hat.congr ?_) (Option.some.inj hstep)
      exact Function.update_of_ne hquiet.1.symm ..
  | send c cmd next =>
      rw [hpc] at hquiet
      simp only [hpc, Option.ite_none_left_eq_some] at hstep
      obtain ⟨hfree, hstep⟩ := hstep
      obtain rfl := Option.some.inj hstep
      refine ⟨hat, ⟨next, rfl, hquiet.2⟩, fun c' => ?_⟩
      by_cases hcc : c' = if c ≥ CFG_MAX_CPU then CFG_MAX_CPU - 1 else c
      · refine Or.inr ⟨?_, cmd, ?_, hquiet.1⟩
        · rw [hcc]
          exact Option.not_isSome_iff_eq_none.mp hfree
        · rw [hcc]
          exact Function.update_self ..
      · exact Or.inl (Function.update_of_ne hcc ..)
  | moveto u c =>
      rw [hpc] at hquiet
      simp only [hpc] at hstep
      split at hstep
      · exact hgoto .idle _ trivial hat (Option.some.inj hstep)
      · split at hstep
        · exact hgoto .idle _ trivial hat (Option.some.inj hstep)
        · exact hgoto (.movetoLock u c _) _ hquiet hat (Option.some.inj hstep)
  | movetoLock u c self =>
      rw [hpc] at hquiet
      simp only [hpc, Option.ite_none_left_eq_some] at hstep
      exact hgoto (.movetoCpu u c self) (s.kernel.setMoveLock u true) hquiet (hat.congr rfl)
        (Option.some.inj hstep.2)
  | movetoCpu u c self =>
      rw [hpc] at hquiet
      simp only [hpc] at hstep
      split at hstep
      · exact hgoto (.send (s.cpu u) (.ACORAL_IPI_THREAD_MOVETO u c) (.unlock u)) _
          ⟨hquiet, trivial⟩ hat (Option.some.inj hstep)
      · exact hgoto (.suspend u (.movetoMark u c self)) _ ⟨hquiet, hquiet⟩ hat
          (Option.some.inj hstep)
  | movetoMark u c self =>
      rw [hpc] at hquiet
      simp only [hpc] at hstep
      exact hgoto (.send c (.ACORAL_IPI_THREAD_MOVEIN u) (.movetoEnd u self)) _
        ⟨hquiet, trivial⟩ (hat.setState (Ne.symm hquiet) _) (Option.some.inj hstep)
  | movetoEnd u self =>
      simp only [hpc] at hstep
      split at hstep
      · exact hgoto (.unlock u) _ trivial hat (Option.some.inj hstep)
      · exact hgoto .idle _ trivial hat (Option.some.inj hstep)
  | movein u =>
      rw [hpc] at hquiet
      simp only [hpc, Option.ite_none_left_eq_some] at hstep
      exact hgoto (.moveinCpu u) (s.kernel.setMoveLock u true) hquiet (hat.congr rfl)
        (Option.some.inj hstep.2)
  | moveinCpu u =>
      rw [hpc] at hquiet
      simp only [hpc] at hstep
      refine hgoto (.rdy u (.unlock u)) _ ⟨hquiet, trivial⟩ (hat.congr ?_) (Option.some.inj hstep)
      exact Function.update_of_ne (Ne.symm hquiet) ..
  | unlock u =>
      simp only [hpc] at hstep
      exact hgoto .idle (s.kernel.setMoveLock u false) trivial (hat.congr rfl) (Option.some.inj hstep)

end Quiet

/-! ### The migration -/

/-- The call that carries the migration on, from the CPU `src` to `dst`: the CPU
it runs on, its place, and where the thread is. `ready` is what the thread was
before. -/
inductive Carrier (t : T) (src dst : Nat) (ready : Bool) : Nat → SmpPc T → Nat → Bool → Prop where
  | moveto (cur : Nat) : Carrier t src dst ready cur (.moveto t dst) src ready
  | movetoLock (cur : Nat) (self : T) (hne : src ≠ dst) :
      Carrier t src dst ready cur (.movetoLock t dst self) src ready
  | movetoCpu (cur : Nat) (self : T) (hne : src ≠ dst) :
      Carrier t src dst ready cur (.movetoCpu t dst self) src ready
  /-- the thread is on another CPU than the call -/
  | sendMoveto (cur : Nat) (hne : src ≠ dst) :
      Carrier t src dst ready cur (.send src (.ACORAL_IPI_THREAD_MOVETO t dst) (.unlock t)) src ready
  | suspend (self : T) (hne : src ≠ dst) :
      Carrier t src dst ready src (.suspend t (.movetoMark t dst self)) src ready
  | suspendCpu (self : T) (hne : src ≠ dst) :
      Carrier t src dst ready src (.suspendCpu t (.movetoMark t dst self)) src ready
  | suspendDel (self : T) (hne : src ≠ dst) :
      Carrier t src dst ready src (.suspendDel t (.movetoMark t dst self)) src ready
  | movetoMark (self : T) (hne : src ≠ dst) :
      Carrier t src dst ready src (.movetoMark t dst self) src false
  | sendMovein (self : T) (hne : src ≠ dst) :
      Carrier t src dst ready src (.send dst (.ACORAL_IPI_THREAD_MOVEIN t) (.movetoEnd t self))
        src false
  | movein (hne : src ≠ dst) : Carrier t src dst ready dst (.movein t) src false
  | moveinCpu (hne : src ≠ dst) : Carrier t src dst ready dst (.moveinCpu t) src false
  | rdy (hne : src ≠ dst) : Carrier t src dst ready dst (.rdy t (.unlock t)) dst false
  | rdyCpu (hne : src ≠ dst) : Carrier t src dst ready dst (.rdyCpu t (.unlock t)) dst false
  | rdyAdd (hne : src ≠ dst) : Carrier t src dst ready dst (.rdyAdd t (.unlock t)) dst false

/-- The command in a mailbox that carries it on. -/
inductive CarrierCmd (t : T) (src dst : Nat) (ready : Bool) : Nat → SmpCmd T → Bool → Prop where
  | moveto (hne : src ≠ dst) :
      CarrierCmd t src dst ready src (.ACORAL_IPI_THREAD_MOVETO t dst) ready
  | movein (hne : src ≠ dst) : CarrierCmd t src dst ready dst (.ACORAL_IPI_THREAD_MOVEIN t) false

section Carrier

variable {t : T} {src dst cur cpu : Nat} {ready r : Bool} {pc : SmpPc T} {cmd : SmpCmd T}

omit [DecidableEq T] in
/-- A call that carries the migration is in progress. -/
theorem Carrier.not_idle (h : Carrier t src dst ready cur pc cpu r) : pc.isIdle = false := by
  cases h <;> rfl

omit [DecidableEq T] in
/-- It is about the thread. -/
theorem Carrier.not_quiet (h : Carrier t src dst ready cur pc cpu r) : ¬ pc.Quiet t := by
  cases h <;> simp [SmpPc.Quiet, SmpCmd.thread]

omit [DecidableEq T] in
/-- The call of the command carries it on. -/
theorem CarrierCmd.call (h : CarrierCmd t src dst ready cur cmd r) :
    Carrier t src dst ready cur cmd.call src r := by
  cases h with
  | moveto hne => exact .moveto src
  | movein hne => exact .movein hne

omit [DecidableEq T] in
/-- The command is about the thread. -/
theorem CarrierCmd.thread_eq (h : CarrierCmd t src dst ready cur cmd r) : cmd.thread = t := by
  cases h <;> rfl

end Carrier

/-- Where a migration can be. -/
inductive Moving (s : SmpState A T) (t : T) (src dst : Nat) (ready : Bool) : Prop where
  /-- a call carries it on -/
  | call (a : A) {cpu : Nat} {r : Bool}
      (hcarrier : Carrier t src dst ready (s.call a).cpu (s.call a).pc cpu r)
      (hat : s.kernel.At t cpu r) (hcalls : ∀ b, b ≠ a → (s.call b).pc.Quiet t)
      (hmail : ∀ c cmd, s.mail c = some cmd → cmd.thread ≠ t)
  /-- a command carries it on -/
  | mail (c : Nat) {cmd : SmpCmd T} {r : Bool} (hcmd : s.mail c = some cmd)
      (hcarrier : CarrierCmd t src dst ready c cmd r) (hat : s.kernel.At t src r)
      (hcalls : ∀ b, (s.call b).pc.Quiet t)
      (hmail : ∀ d cmd, d ≠ c → s.mail d = some cmd → cmd.thread ≠ t)
  /-- it is over -/
  | done (hat : s.kernel.At t dst (if src = dst then ready else true)) (hquiet : s.Quiet t)

section Step

variable {s s' : SmpState A T} {t : T} {src dst : Nat} {ready : Bool}

/-- The call that carries the migration on makes a step. -/
theorem Moving.carrier_step {a : A} {cpu : Nat} {r : Bool} (hsrc : src < CFG_MAX_CPU)
    (hdst : dst < CFG_MAX_CPU)
    (hcarrier : Carrier t src dst ready (s.call a).cpu (s.call a).pc cpu r)
    (hat : s.kernel.At t cpu r) (hcalls : ∀ b, b ≠ a → (s.call b).pc.Quiet t)
    (hmail : ∀ c cmd, s.mail c = some cmd → cmd.thread ≠ t)
    (hstep : smpCallStep s a = some s') : Moving s' t src dst ready := by
  generalize hpc : (s.call a).pc = pc at hcarrier
  generalize hcur : (s.call a).cpu = cur at hcarrier
  -- the call goes on and still carries the migration
  have hgoto : ∀ (pc' : SmpPc T) (k : CpuState T) {cpu' : Nat} {r' : Bool},
      Carrier t src dst ready cur pc' cpu' r' → k.At t cpu' r' → s.goto a pc' k = s' →
      Moving s' t src dst ready := by
    rintro pc' k cpu' r' hcarrier' hat' rfl
    refine .call a ?_ hat' (fun b hb => ?_) hmail
    · simpa [SmpState.goto, hcur] using hcarrier'
    · simpa [SmpState.goto, hb] using hcalls b hb
  -- or it is over for the thread
  have hquiets : ∀ (pc' : SmpPc T), pc'.Quiet t → ∀ b,
      (Function.update s.call a { s.call a with pc := pc' } b).pc.Quiet t := fun pc' hq b => by
    by_cases hb : b = a
    · simpa [hb] using hq
    · simpa [hb] using hcalls b hb
  -- or it hands the migration over to a command
  have hsend : ∀ (c : Nat) (cmd : SmpCmd T) (next : SmpPc T), c < CFG_MAX_CPU →
      pc = .send c cmd next → next.Quiet t → CarrierCmd t src dst ready c cmd r →
      cpu = src → Moving s' t src dst ready := by
    rintro c cmd next hlt rfl hnext hcmd rfl
    simp only [smpCallStep, hpc, ge_iff_le, Nat.not_le.mpr hlt, if_false,
      Option.ite_none_left_eq_some] at hstep
    obtain rfl := Option.some.inj hstep.2
    refine .mail c (Function.update_self ..) hcmd hat (hquiets next hnext) fun d cmd' hd hin => ?_
    exact hmail d cmd' ((Function.update_of_ne hd ..).symm.trans hin)
  cases hcarrier with
  | moveto =>
      simp only [smpCallStep, hpc, ge_iff_le, Nat.not_le.mpr hdst, if_false] at hstep
      split at hstep
      · rename_i heq
        obtain rfl := Option.some.inj hstep
        have hsd : src = dst := hat.cpu.symm.trans heq
        refine .done ?_ ⟨hquiets .idle trivial, hmail⟩
        rw [if_pos hsd]
        exact hsd ▸ hat
      · rename_i hne
        have hsd : src ≠ dst := fun he => hne (hat.cpu.trans he)
        exact hgoto (.movetoLock t dst _) _ (.movetoLock cur _ hsd) hat (Option.some.inj hstep)
  | movetoLock _ self hne =>
      simp only [smpCallStep, hpc, Option.ite_none_left_eq_some] at hstep
      exact hgoto (.movetoCpu t dst self) (s.kernel.setMoveLock t true) (.movetoCpu cur self hne)
        (hat.congr rfl) (Option.some.inj hstep.2)
  | movetoCpu _ self hne =>
      simp only [smpCallStep, hpc, hcur] at hstep
      split at hstep
      · rw [show s.cpu t = src from hat.cpu] at hstep
        exact hgoto (.send src (.ACORAL_IPI_THREAD_MOVETO t dst) (.unlock t)) _
          (.sendMoveto cur hne) hat (Option.some.inj hstep)
      · rename_i heq
        obtain rfl : src = cur := hat.cpu.symm.trans (not_not.mp heq)
        exact hgoto (.suspend t (.movetoMark t dst self)) _ (.suspend self hne) hat
          (Option.some.inj hstep)
  | sendMoveto _ hne => exact hsend src _ _ hsrc rfl trivial (.moveto hne) rfl
  | suspend self hne =>
      simp only [smpCallStep, hpc] at hstep
      split at hstep
      · exact hgoto (.suspendCpu t (.movetoMark t dst self)) _ (.suspendCpu self hne) hat
          (Option.some.inj hstep)
      · -- a thread that is not READY stays as it is
        rename_i hnot
        have hready : ready = false := hat.isReady.symm.trans (Bool.eq_false_iff.mpr hnot)
        exact hgoto (.movetoMark t dst self) _ (.movetoMark self hne) (hready ▸ hat)
          (Option.some.inj hstep)
  | suspendCpu self hne =>
      simp only [smpCallStep, hpc, hcur, show s.cpu t = src from hat.cpu, ne_eq, not_true_eq_false,
        if_false] at hstep
      exact hgoto (.suspendDel t (.movetoMark t dst self)) _ (.suspendDel self hne) hat
        (Option.some.inj hstep)
  | suspendDel self hne =>
      simp only [smpCallStep, hpc] at hstep
      exact hgoto (.movetoMark t dst self) _ (.movetoMark self hne) hat.suspended
        (Option.some.inj hstep)
  | movetoMark self hne =>
      simp only [smpCallStep, hpc] at hstep
      refine hgoto (.send dst (.ACORAL_IPI_THREAD_MOVEIN t) (.movetoEnd t self)) _
        (.sendMovein self hne) (hat.sameReady ?_) (Option.some.inj hstep)
      exact SameReady.setState _ _ (hasFlag_setMove _)
  | sendMovein self hne => exact hsend dst _ _ hdst rfl trivial (.movein hne) rfl
  | movein hne =>
      simp only [smpCallStep, hpc, Option.ite_none_left_eq_some] at hstep
      exact hgoto (.moveinCpu t) (s.kernel.setMoveLock t true) (.moveinCpu hne) (hat.congr rfl)
        (Option.some.inj hstep.2)
  | moveinCpu hne =>
      simp only [smpCallStep, hpc, hcur] at hstep
      exact hgoto (.rdy t (.unlock t)) _ (.rdy hne) hat.moved (Option.some.inj hstep)
  | rdy hne =>
      have hflag : hasFlag (s.kernel.state t) ACORAL_THREAD_STATE_SUSPEND = true := hat.isSuspended
      simp only [smpCallStep, hpc, hflag, if_true] at hstep
      exact hgoto (.rdyCpu t (.unlock t)) _ (.rdyCpu hne) hat (Option.some.inj hstep)
  | rdyCpu hne =>
      simp only [smpCallStep, hpc, hcur, show s.cpu t = dst from hat.cpu, ne_eq, not_true_eq_false,
        if_false] at hstep
      exact hgoto (.rdyAdd t (.unlock t)) _ (.rdyAdd hne) hat (Option.some.inj hstep)
  | rdyAdd hne =>
      simp only [smpCallStep, hpc] at hstep
      obtain rfl := Option.some.inj hstep
      refine .done ?_ ⟨hquiets (.unlock t) trivial, hmail⟩
      rw [if_neg hne]
      exact hat.readied

/-- The operation starts no call about the thread. -/
def SmpOp.Elsewhere (t : T) : SmpOp A T → Prop
  | .call _ _ cmd => cmd.thread ≠ t
  | _             => True

omit [DecidableEq T] in
/-- The call of a command that is not about the thread. -/
theorem SmpCmd.call_quiet {cmd : SmpCmd T} (h : cmd.thread ≠ t) : cmd.call.Quiet t := by
  cases cmd with
  | ACORAL_IPI_THREAD_READY u => exact ⟨h, trivial⟩
  | ACORAL_IPI_THREAD_SUSPEND u => exact ⟨h, trivial⟩
  | ACORAL_IPI_THREAD_MOVETO u cpu => exact h
  | ACORAL_IPI_THREAD_MOVEIN u => exact h

omit [DecidableEq T] in
/-- A call starts, by itself or by a handler. -/
theorem update_quiet {call : A → SmpCall T} (h : ∀ b, (call b).pc.Quiet t) (a : A) {c : SmpCall T}
    (hc : c.pc.Quiet t) (b : A) : (Function.update call a c b).pc.Quiet t := by
  by_cases hb : b = a
  · simpa [hb] using hc
  · simpa [hb] using h b

/-- Any step that is not a call about the thread keeps the migration going. -/
theorem Moving.step (h : Moving s t src dst ready) (hsrc : src < CFG_MAX_CPU)
    (hdst : dst < CFG_MAX_CPU) {op : SmpOp A T} (hop : op.Elsewhere t)
    (hstep : s.step op = some s') : Moving s' t src dst ready := by
  cases op with
  | call b cpu cmd =>
      obtain ⟨hidle, hs'⟩ := Option.ite_none_right_eq_some.mp hstep
      obtain rfl := Option.some.inj hs'
      have hquiet := SmpCmd.call_quiet hop
      cases h with
      | call a hcarrier hat hcalls hmail =>
          have hba : b ≠ a := fun he => by
            rw [he, hcarrier.not_idle] at hidle
            exact absurd hidle (by simp)
          refine .call a ?_ hat (fun c hc => ?_) hmail
          · simpa [Function.update_of_ne hba.symm] using hcarrier
          · by_cases hcb : c = b
            · simpa [hcb] using hquiet
            · simpa [hcb] using hcalls c hc
      | mail c hcmd hcarrier hat hcalls hmail =>
          exact .mail c hcmd hcarrier hat (update_quiet hcalls b hquiet) hmail
      | done hat hdone => exact .done hat ⟨update_quiet hdone.call b hquiet, hdone.mail⟩
  | step b =>
      -- the mailboxes are written by a call that is not about the thread
      have hmails : ∀ {P : Nat → Prop}, (∀ c, s'.mail c = s.mail c ∨
          s.mail c = none ∧ ∃ cmd, s'.mail c = some cmd ∧ cmd.thread ≠ t) →
          (∀ c cmd, P c → s.mail c = some cmd → cmd.thread ≠ t) →
          ∀ c cmd, P c → s'.mail c = some cmd → cmd.thread ≠ t := by
        intro P hwritten hold c cmd hP hc
        rcases hwritten c with heq | ⟨-, cmd', hc', hne⟩
        · exact hold c cmd hP (heq ▸ hc)
        · exact (Option.some.inj (hc'.symm.trans hc)) ▸ hne
      cases h with
      | call a hcarrier hat hcalls hmail =>
          by_cases hba : b = a
          · subst hba
            exact Moving.carrier_step hsrc hdst hcarrier hat hcalls hmail hstep
          · obtain ⟨hat', ⟨pc, hcall, hpc⟩, hwritten⟩ := quiet_step (hcalls b hba) hat hstep
            refine .call a ?_ hat' (fun c hc => ?_) fun c cmd =>
              hmails (P := fun _ => True) hwritten (fun c cmd _ => hmail c cmd) c cmd trivial
            · rw [hcall, Function.update_of_ne (Ne.symm hba)]
              exact hcarrier
            · rw [hcall]
              by_cases hcb : c = b
              · simpa [hcb] using hpc
              · simpa [hcb] using hcalls c hc
      | mail c hcmd hcarrier hat hcalls hmail =>
          obtain ⟨hat', ⟨pc, hcall, hpc⟩, hwritten⟩ := quiet_step (hcalls b) hat hstep
          refine .mail c ?_ hcarrier hat' (fun d => ?_) fun d cmd =>
            hmails (P := fun d => d ≠ c) hwritten hmail d cmd
          · rcases hwritten c with heq | ⟨hnone, -⟩
            · exact heq.trans hcmd
            · exact absurd (hnone.symm.trans hcmd) (by simp)
          · rw [hcall]
            exact update_quiet hcalls b hpc d
      | done hat hdone =>
          obtain ⟨hat', ⟨pc, hcall, hpc⟩, hwritten⟩ := quiet_step (hdone.call b) hat hstep
          refine .done hat' ⟨fun d => ?_, fun c cmd =>
            hmails (P := fun _ => True) hwritten (fun c cmd _ => hdone.mail c cmd) c cmd trivial⟩
          rw [hcall]
          exact update_quiet hdone.call b hpc d
  | handler b cpu =>
      obtain ⟨hidle, hs'⟩ := Option.ite_none_right_eq_some.mp hstep
      obtain ⟨cmd, hmailbox, rfl⟩ := Option.map_eq_some_iff.mp hs'
      -- what is left in the mailboxes was there before
      have hleft : ∀ d cmd', Function.update s.mail cpu none d = some cmd' →
          d ≠ cpu ∧ s.mail d = some cmd' := fun d cmd' hd => by
        by_cases hdc : d = cpu
        · rw [hdc, Function.update_self] at hd
          exact absurd hd (by simp)
        · rw [Function.update_of_ne hdc] at hd
          exact ⟨hdc, hd⟩
      cases h with
      | call a hcarrier hat hcalls hmail =>
          have hba : b ≠ a := fun he => by
            rw [he, hcarrier.not_idle] at hidle
            exact absurd hidle (by simp)
          have hquiet := SmpCmd.call_quiet (hmail cpu cmd hmailbox)
          refine .call a ?_ hat (fun c hc => ?_) fun d cmd' hd => hmail d cmd' (hleft d cmd' hd).2
          · simpa [Function.update_of_ne hba.symm] using hcarrier
          · by_cases hcb : c = b
            · simpa [hcb] using hquiet
            · simpa [hcb] using hcalls c hc
      | mail c hcmd hcarrier hat hcalls hmail =>
          by_cases hcc : cpu = c
          · -- the handler takes the command that carries the migration
            subst hcc
            obtain rfl := Option.some.inj (hmailbox.symm.trans hcmd)
            refine .call b ?_ hat (fun d hd => ?_) fun d cmd' hd =>
              hmail d cmd' (hleft d cmd' hd).1 (hleft d cmd' hd).2
            · simpa using hcarrier.call
            · simpa [hd] using hcalls d
          · have hquiet := SmpCmd.call_quiet (hmail cpu cmd hcc hmailbox)
            refine .mail c ?_ hcarrier hat (update_quiet hcalls b hquiet) fun d cmd' hdc hd =>
              hmail d cmd' hdc (hleft d cmd' hd).2
            exact (Function.update_of_ne (Ne.symm hcc) ..).trans hcmd
      | done hat hdone =>
          have hquiet := SmpCmd.call_quiet (hdone.mail cpu cmd hmailbox)
          exact .done hat ⟨update_quiet hdone.call b hquiet, fun d cmd' hd =>
            hdone.mail d cmd' (hleft d cmd' hd).2⟩
  | switchContext cpu =>
      obtain ⟨kernel, hswitch, rfl⟩ := Option.map_eq_some_iff.mp hstep
      cases h with
      | call a hcarrier hat hcalls hmail =>
          exact .call a hcarrier (hat.switchContext hswitch) hcalls hmail
      | mail c hcmd hcarrier hat hcalls hmail =>
          exact .mail c hcmd hcarrier (hat.switchContext hswitch) hcalls hmail
      | done hat hdone => exact .done (hat.switchContext hswitch) ⟨hdone.call, hdone.mail⟩

end Step

/-! ### The result -/

/-- The lists that a thread waits in: those of the objects of `ipc.c`, and
`time_delay_queue`. A migration reads and writes neither. -/
structure WaitLists (T : Type) where
  /-- the threads whose `pending` node is in a wait queue -/
  waits : List T
  /-- `time_delay_queue` -/
  timeDelayQueue : List (T × Int)

/-- A wait or a delay is in force: the thread is listed, and it is SUSPEND until
it is woken. -/
def WaitLists.InForce (w : WaitLists T) (k : Sched T) (t : T) : Prop :=
  (t ∈ w.waits ∨ t ∈ w.timeDelayQueue.map Prod.fst) ∧ (k.thread t).isSuspended = true

/-- The thread is on the target, READY if it was READY, and its waits and delays
are in force if they were. -/
structure KeepsScheduling (k k' : Sched T) (t : T) (dst : Nat) : Prop where
  cpu : (k'.thread t).cpu = dst
  ready : (k'.thread t).isReady = (k.thread t).isReady
  waits : ∀ w : WaitLists T, w.InForce k t → w.InForce k' t

/-- Behind the migration the thread is on the target, and READY. -/
theorem Moving.run {s s' : SmpState A T} {t : T} {src dst : Nat} {ready : Bool}
    {ops : List (SmpOp A T)} (h : Moving s t src dst ready) (hsrc : src < CFG_MAX_CPU)
    (hdst : dst < CFG_MAX_CPU) (hops : ∀ op ∈ ops, op.Elsewhere t)
    (hrun : Lib.run SmpState.step s ops = some s') : Moving s' t src dst ready :=
  Lib.run_induct_mem (P := fun s => Moving s t src dst ready)
    (fun _ op _ hop h hstep => h.step hsrc hdst (hops op hop) hstep) h hrun

omit [DecidableEq A] [DecidableEq T] in
/-- A thread that has arrived at the target is left alone. -/
theorem Moving.quiet {s : SmpState A T} {t : T} {src dst : Nat} {ready : Bool}
    (h : Moving s t src dst ready) (hcpu : s.cpu t = dst) (hne : src ≠ dst)
    (hready : (s.kernel.sched.thread t).isReady = true) : s.Quiet t := by
  cases h with
  | call a hcarrier hat =>
      have hc := hat.cpu.symm.trans hcpu
      have hr := hat.isReady.symm.trans hready
      generalize (s.call a).pc = pc at hcarrier
      generalize (s.call a).cpu = cur at hcarrier
      cases hcarrier <;> first | exact absurd hc hne | exact absurd hr (by simp)
  | mail c hcmd hcarrier hat => exact absurd (hat.cpu.symm.trans hcpu) hne
  | done hat hquiet => exact hquiet

/-- The start of a migration. -/
theorem Moving.start {s s₁ : SmpState A T} {a : A} {cur dst : Nat} {t : T} (hquiet : s.Quiet t)
    (hstate : (s.kernel.sched.thread t).isSuspended = !(s.kernel.sched.thread t).isReady)
    (hcall : s.step (.call a cur (.ACORAL_IPI_THREAD_MOVETO t dst)) = some s₁) :
    Moving s₁ t (s.cpu t) dst (s.kernel.sched.thread t).isReady := by
  obtain ⟨-, hs₁⟩ := Option.ite_none_right_eq_some.mp hcall
  obtain rfl := Option.some.inj hs₁
  refine .call a ?_ ⟨rfl, rfl, hstate⟩ (fun b hb => ?_) hquiet.mail
  · have hself : Function.update s.call a
        { cpu := cur, pc := (SmpCmd.ACORAL_IPI_THREAD_MOVETO t dst).call } a =
          { cpu := cur, pc := .moveto t dst } := Function.update_self ..
    simp only [hself]
    exact Carrier.moveto cur
  · simpa [hb] using hquiet.call b

/-- A thread, in any state, is moved to any CPU by a call on any CPU. Any other
steps of the system come in between, in any order, except calls about the
thread. Once the call and its commands are done, the scheduling state of the
thread is as it was if and only if the thread was READY, or was on the target. -/
theorem moveto_iff {s s₁ s' : SmpState A T} {a : A} {cur dst : Nat} {t : T}
    {ops : List (SmpOp A T)} (hquiet : s.Quiet t)
    (hstate : (s.kernel.sched.thread t).isSuspended = !(s.kernel.sched.thread t).isReady)
    (hsrc : s.cpu t < CFG_MAX_CPU) (hdst : dst < CFG_MAX_CPU)
    (hcall : s.step (.call a cur (.ACORAL_IPI_THREAD_MOVETO t dst)) = some s₁)
    (hops : ∀ op ∈ ops, op.Elsewhere t) (hrun : Lib.run SmpState.step s₁ ops = some s')
    (hdone : s'.Quiet t) :
    KeepsScheduling s.kernel.sched s'.kernel.sched t dst ↔
      (s.kernel.sched.thread t).isReady = true ∨ s.cpu t = dst := by
  have hstart := Moving.start hquiet hstate hcall
  cases hstart.run hsrc hdst hops hrun with
  | call b hcarrier => exact absurd (hdone.call b) hcarrier.not_quiet
  | mail c hcmd hcarrier => exact absurd hcarrier.thread_eq (hdone.mail c _ hcmd)
  | done hat =>
      constructor
      · intro hkeeps
        by_contra hneither
        obtain ⟨hnot, hne⟩ := not_or.mp hneither
        rw [if_neg hne] at hat
        exact hnot (hkeeps.ready.symm.trans hat.isReady)
      · intro hor
        have hready : (s'.kernel.sched.thread t).isReady = (s.kernel.sched.thread t).isReady := by
          rw [hat.isReady]
          split
          · rfl
          · case isFalse hne => exact (hor.resolve_right hne).symm
        refine ⟨hat.cpu, hready, fun w hw => ⟨hw.1, ?_⟩⟩
        rw [hat.isSuspended, ← hat.isReady, hready, ← hstate]
        exact hw.2

/-- Thread 0 is READY on CPU 0. -/
def readyStart : SmpState (Fin 4) (Fin 3) :=
  let s := SmpState.start idleKernel idleThreads
  { s with kernel := s.kernel.setSched (acoralSchedRdyqueueAdd 0 s.kernel.sched 0) }

/-- CPU 1 asks for the thread: CPU 0 sends it, and CPU 1 takes it in. -/
def fetchRun : List (SmpOp (Fin 4) (Fin 3)) :=
  List.replicate 5 (.step 0) ++ [.handler 1 0] ++ List.replicate 10 (.step 1) ++ [.handler 2 1] ++
    List.replicate 6 (.step 2)

/-- A READY thread of CPU 0 is fetched by CPU 1. -/
theorem moveto_iff_fetch : ∃ s₁ s' : SmpState (Fin 4) (Fin 3),
    readyStart.step (.call 0 1 (.ACORAL_IPI_THREAD_MOVETO 0 1)) = some s₁ ∧
      Lib.run SmpState.step s₁ fetchRun = some s' ∧
      (KeepsScheduling readyStart.kernel.sched s'.kernel.sched 0 1 ↔
        (readyStart.kernel.sched.thread 0).isReady = true ∨ readyStart.cpu 0 = 1) := by
  have heval : ((readyStart.step (.call 0 1 (.ACORAL_IPI_THREAD_MOVETO 0 1))).bind fun s₁ =>
      Lib.run SmpState.step s₁ fetchRun).any
        (fun s => decide ((s.kernel.sched.thread 0).isReady = true ∧ s.cpu 0 = 1)) = true := by
    decide +kernel
  obtain ⟨s', hall, hend⟩ := (Option.any_eq_true ..).mp heval
  obtain ⟨s₁, hcall, hrun⟩ := Option.bind_eq_some_iff.mp hall
  obtain ⟨hready, hcpu⟩ := of_decide_eq_true hend
  have hquiet : readyStart.Quiet 0 := ⟨fun _ => trivial, nofun⟩
  have hops : ∀ op ∈ fetchRun, SmpOp.Elsewhere 0 op := by
    simp [fetchRun, SmpOp.Elsewhere]
  have hmoving := (Moving.start hquiet (by decide +kernel) hcall).run (by decide +kernel)
    (by decide) hops hrun
  exact ⟨s₁, s', hcall, hrun, moveto_iff hquiet (by decide +kernel) (by decide +kernel) (by decide)
    hcall hops hrun (hmoving.quiet hcpu (by decide +kernel) hready)⟩

/-- Thread 0 is SUSPEND on CPU 0. CPU 0 sends it, and CPU 1 takes it in. -/
def sendRun : List (SmpOp (Fin 4) (Fin 3)) :=
  List.replicate 8 (.step 0) ++ [.handler 2 1] ++ List.replicate 6 (.step 2)

/-- A delayed thread is moved. It is READY at once, and still in the queue of
the delayed ones. -/
theorem moveto_wakes : ∃ s₁ s' : SmpState (Fin 4) (Fin 3),
    (SmpState.start idleKernel idleThreads).step
        (.call 0 0 (.ACORAL_IPI_THREAD_MOVETO 0 1)) = some s₁ ∧
      Lib.run SmpState.step s₁ sendRun = some s' ∧ s'.Quiet 0 ∧
      (WaitLists.mk [] [(0, 5)]).InForce (SmpState.start idleKernel idleThreads :
        SmpState (Fin 4) (Fin 3)).kernel.sched 0 ∧
      ¬ (WaitLists.mk [] [(0, 5)]).InForce s'.kernel.sched 0 ∧
      ¬ KeepsScheduling (SmpState.start idleKernel idleThreads :
        SmpState (Fin 4) (Fin 3)).kernel.sched s'.kernel.sched 0 1 := by
  have heval : (((SmpState.start idleKernel idleThreads : SmpState (Fin 4) (Fin 3)).step
      (.call 0 0 (.ACORAL_IPI_THREAD_MOVETO 0 1))).bind fun s₁ =>
        Lib.run SmpState.step s₁ sendRun).any
        (fun s => decide ((s.kernel.sched.thread 0).isReady = true ∧
          (s.kernel.sched.thread 0).isSuspended = false ∧ s.cpu 0 = 1)) = true := by
    decide +kernel
  obtain ⟨s', hall, hend⟩ := (Option.any_eq_true ..).mp heval
  obtain ⟨s₁, hcall, hrun⟩ := Option.bind_eq_some_iff.mp hall
  obtain ⟨hready, hsuspended, hcpu⟩ := of_decide_eq_true hend
  have hquiet : (SmpState.start idleKernel idleThreads : SmpState (Fin 4) (Fin 3)).Quiet 0 :=
    ⟨fun _ => trivial, nofun⟩
  have hops : ∀ op ∈ sendRun, SmpOp.Elsewhere 0 op := by
    simp [sendRun, SmpOp.Elsewhere]
  have hmoving := (Moving.start hquiet rfl hcall).run (by decide) (by decide) hops hrun
  have hforce : (WaitLists.mk [] [(0, 5)]).InForce (SmpState.start idleKernel idleThreads :
      SmpState (Fin 4) (Fin 3)).kernel.sched 0 := ⟨Or.inr (by simp), rfl⟩
  have hnot : ¬ (WaitLists.mk [] [(0, 5)]).InForce s'.kernel.sched 0 := fun h =>
    absurd (h.2.symm.trans hsuspended) (by simp)
  exact ⟨s₁, s', hcall, hrun, hmoving.quiet hcpu (by decide) hready, hforce, hnot,
    fun hkeeps => hnot (hkeeps.waits _ hforce)⟩

end ACoral
