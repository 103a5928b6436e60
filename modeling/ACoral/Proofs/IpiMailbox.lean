import ACoral.Kernel.Ipi

/-!
# `ACoral.Proofs.IpiMailbox`: each command is taken once

The lock of a mailbox is acquired on one CPU and released on another. At
every moment it is held on behalf of one command, which is being written,
waits for its interrupt to be taken, or is being read
(`IpiRun.Holder`). Each step is one move between these four states of a
mailbox, and leaves the other mailbox alone.

- `ipi_mailbox`: the runs of the handler and the calls that raised an
  interrupt correspond one to one, apart from a last call of which the
  interrupt is still pending, and each run reads the arguments of its
  call.
-/

set_option autoImplicit false

namespace ACoral

variable {S H : Type} [DecidableEq S] [DecidableEq H]

/-! ### Where a command is -/

/-- A call holds the lock of a mailbox, and has not raised the interrupt. -/
def IpiSend.Writing (c : IpiSend) (cpu : Nat) : Prop :=
  c.cpu = cpu ∧ (c.pc = .cmd ∨ c.pc = .threadId ∨ c.pc = .data ∨ c.pc = .send)

/-- A handler run has to give the lock of a mailbox back. -/
def IpiHandler.Reading (r : IpiHandler) (cpu : Nat) : Prop :=
  r.cpu = cpu ∧ (r.pc = .cmd ∨ r.pc = .threadId ∨ r.pc = .data ∨ r.pc = .unlock)

/-- The fields that a call has written so far. -/
def IpiSend.Wrote (c : IpiSend) (box : IpiCmdBox) : Prop :=
  ((c.pc = .threadId ∨ c.pc = .data ∨ c.pc = .send) → box.cmd = c.args.cmd) ∧
    ((c.pc = .data ∨ c.pc = .send) → box.threadId = c.args.threadId) ∧
    (c.pc = .send → box.data = c.args.data)

/-- A mailbox holds the arguments of a call. -/
def IpiCmdBox.Holds (box : IpiCmdBox) (args : IpiArgs) : Prop :=
  box.cmd = args.cmd ∧ box.threadId = args.threadId ∧ box.data = args.data

/-- What a handler run has read so far are the arguments of a call. -/
def IpiHandler.Took (r : IpiHandler) (args : IpiArgs) : Prop :=
  (r.pc ≠ .cmd → r.locals.cmd = args.cmd) ∧
    (r.pc ≠ .cmd → r.pc ≠ .threadId → r.locals.threadId = args.threadId) ∧
    (r.pc = .unlock ∨ r.pc = .done → r.locals.data = args.data)

namespace IpiRun

/-- The state of the mailbox of a CPU. -/
inductive Holder (s : IpiRun S H) (cpu : Nat) : Prop where
  /-- the lock is free -/
  | free (hlock : (s.st.ipiCmd cpu).lock = false) (hwrite : ∀ x, ¬ (s.st.send x).Writing cpu)
      (hpend : s.st.pending cpu = 0) (hread : ∀ h, ¬ (s.st.handler h).Reading cpu)
      (hlen : (s.raised cpu).length = (s.started cpu).length)
  /-- a call writes its arguments -/
  | writing (x : S) (hlock : (s.st.ipiCmd cpu).lock = true)
      (hwrite : ∀ y, (s.st.send y).Writing cpu ↔ y = x) (hpend : s.st.pending cpu = 0)
      (hread : ∀ h, ¬ (s.st.handler h).Reading cpu)
      (hlen : (s.raised cpu).length = (s.started cpu).length)
      (hbox : (s.st.send x).Wrote (s.st.ipiCmd cpu))
  /-- the interrupt of a call is pending -/
  | pending (x : S) (l : List S) (hlock : (s.st.ipiCmd cpu).lock = true)
      (hwrite : ∀ y, ¬ (s.st.send y).Writing cpu) (hpend : s.st.pending cpu = 1)
      (hread : ∀ h, ¬ (s.st.handler h).Reading cpu) (hraised : s.raised cpu = l ++ [x])
      (hlen : l.length = (s.started cpu).length)
      (hbox : (s.st.ipiCmd cpu).Holds (s.st.send x).args)
  /-- a handler run reads the arguments of a call -/
  | reading (x : S) (h : H) (l : List S) (l' : List H) (hlock : (s.st.ipiCmd cpu).lock = true)
      (hwrite : ∀ y, ¬ (s.st.send y).Writing cpu) (hpend : s.st.pending cpu = 0)
      (hread : ∀ g, (s.st.handler g).Reading cpu ↔ g = h) (hraised : s.raised cpu = l ++ [x])
      (hstarted : s.started cpu = l' ++ [h]) (hlen : l.length = l'.length)
      (hbox : (s.st.ipiCmd cpu).Holds (s.st.send x).args)

/-- A handler run takes a call: the one that was the n-th to be entered on
its CPU takes the n-th that raised an interrupt there. -/
def Takes (s : IpiRun S H) (h : H) (x : S) : Prop :=
  ∃ cpu n : Nat, (s.started cpu)[n]? = some h ∧ (s.raised cpu)[n]? = some x

/-- The invariant of the mailboxes. -/
structure Inv (s : IpiRun S H) : Prop where
  raised : ∀ cpu x, x ∈ s.raised cpu ↔ (s.st.send x).pc = .done ∧ (s.st.send x).cpu = cpu
  started : ∀ cpu h, h ∈ s.started cpu ↔ (s.st.handler h).pc ≠ .idle ∧ (s.st.handler h).cpu = cpu
  raisedNodup : ∀ cpu, (s.raised cpu).Nodup
  startedNodup : ∀ cpu, (s.started cpu).Nodup
  /-- `acoral_ipi_send` knows the CPU -/
  target : ∀ x, (s.st.send x).pc ≠ .idle → (s.st.send x).cpu < CFG_MAX_CPU
  took : ∀ h x, s.Takes h x → (s.st.handler h).Took (s.st.send x).args
  holder : ∀ cpu, s.Holder cpu

/-! ### Frames -/

omit [DecidableEq S] [DecidableEq H] in
/-- The state of a mailbox is a matter of its lock and fields, its pending
interrupts, and the calls and handler runs that hold it. -/
theorem Holder.congr {s s' : IpiRun S H} {cpu : Nat} (hs : s.Holder cpu)
    (hbox : s'.st.ipiCmd cpu = s.st.ipiCmd cpu) (hpend : s'.st.pending cpu = s.st.pending cpu)
    (hwriting : ∀ x, (s'.st.send x).Writing cpu ↔ (s.st.send x).Writing cpu)
    (hsend : ∀ x, (s.st.send x).Writing cpu ∨ x ∈ s.raised cpu → s'.st.send x = s.st.send x)
    (hreading : ∀ h, (s'.st.handler h).Reading cpu ↔ (s.st.handler h).Reading cpu)
    (hraised : s'.raised cpu = s.raised cpu) (hstarted : s'.started cpu = s.started cpu) :
    s'.Holder cpu := by
  cases hs with
  | free hlock hwrite hp hread hlen =>
      refine .free ?_ ?_ ?_ ?_ ?_
      · rwa [hbox]
      · exact fun x hx => hwrite x ((hwriting x).mp hx)
      · rwa [hpend]
      · exact fun h hh => hread h ((hreading h).mp hh)
      · rwa [hraised, hstarted]
  | writing x hlock hwrite hp hread hlen hwrote =>
      refine .writing x ?_ ?_ ?_ ?_ ?_ ?_
      · rwa [hbox]
      · exact fun y => (hwriting y).trans (hwrite y)
      · rwa [hpend]
      · exact fun h hh => hread h ((hreading h).mp hh)
      · rwa [hraised, hstarted]
      · rwa [hbox, hsend x (Or.inl ((hwrite x).mpr rfl))]
  | pending x l hlock hwrite hp hread hr hlen hholds =>
      refine .pending x l ?_ ?_ ?_ ?_ ?_ ?_ ?_
      · rwa [hbox]
      · exact fun y hy => hwrite y ((hwriting y).mp hy)
      · rwa [hpend]
      · exact fun h hh => hread h ((hreading h).mp hh)
      · rwa [hraised]
      · rwa [hstarted]
      · rwa [hbox, hsend x (Or.inr (by simp [hr]))]
  | reading x h l l' hlock hwrite hp hread hr hst hlen hholds =>
      refine .reading x h l l' ?_ ?_ ?_ ?_ ?_ ?_ hlen ?_
      · rwa [hbox]
      · exact fun y hy => hwrite y ((hwriting y).mp hy)
      · rwa [hpend]
      · exact fun g => (hreading g).trans (hread g)
      · rwa [hraised]
      · rwa [hstarted]
      · rwa [hbox, hsend x (Or.inr (by simp [hr]))]

omit [DecidableEq S] [DecidableEq H] in
/-- A call that raised an interrupt is the one that its handler run takes:
the run that reads a mailbox takes the last call. -/
theorem Inv.takes_eq {s : IpiRun S H} (hi : s.Inv) {cpu : Nat} {h : H} {x y : S} {l : List S}
    {l' : List H} (hraised : s.raised cpu = l ++ [x]) (hstarted : s.started cpu = l' ++ [h])
    (hlen : l.length = l'.length) (hy : s.Takes h y) : y = x := by
  obtain ⟨cpu', n, hh, hn⟩ := hy
  have hmem : h ∈ s.started cpu := by simp [hstarted]
  have hcpu : cpu' = cpu :=
    ((hi.started cpu' h).mp (List.mem_of_getElem? hh)).2.symm.trans ((hi.started cpu h).mp hmem).2
  subst hcpu
  have hlast : (s.started cpu')[l'.length]? = some h := by simp [hstarted]
  have heq : n = l'.length := by
    have hlt : n < (s.started cpu').length := (List.getElem?_eq_some_iff.mp hh).1
    exact (List.getElem?_inj hlt (hi.startedNodup cpu')).mp (hh.trans hlast.symm)
  rw [heq, ← hlen, hraised] at hn
  simpa using hn.symm

omit [DecidableEq H] in
/-- One instruction of a call that neither starts nor ends it. -/
theorem Inv.sendGoto {s : IpiRun S H} (hi : s.Inv) {x : S} {pc : IpiSendPc} {box : IpiCmdBox}
    (hfrom : (s.st.send x).pc ≠ .idle ∧ (s.st.send x).pc ≠ .done)
    (hto : pc ≠ .idle ∧ pc ≠ .done)
    (hholder : ({ s with
      st := (s.st.setBox (s.st.send x).cpu box).sendGoto x pc } : IpiRun S H).Holder
        (s.st.send x).cpu) :
    ({ s with st := (s.st.setBox (s.st.send x).cpu box).sendGoto x pc } : IpiRun S H).Inv := by
  have hother : ∀ y, y ≠ x →
      ((s.st.setBox (s.st.send x).cpu box).sendGoto x pc).send y = s.st.send y :=
    fun y hy => Function.update_of_ne hy _ _
  have hself : ((s.st.setBox (s.st.send x).cpu box).sendGoto x pc).send x =
      { s.st.send x with pc := pc } := Function.update_self ..
  have hne : ∀ y, (s.st.send y).pc = .done → y ≠ x := by
    rintro y hy rfl
    exact hfrom.2 hy
  constructor
  · intro cpu y
    rw [hi.raised cpu y]
    by_cases hy : y = x
    · subst hy
      rw [hself]
      exact iff_of_false (fun h => hfrom.2 h.1) fun h => hto.2 h.1
    · rw [hother y hy]
  · exact hi.started
  · exact hi.raisedNodup
  · exact hi.startedNodup
  · intro y hpc
    by_cases hy : y = x
    · subst hy
      rw [hself]
      exact hi.target y hfrom.1
    · rw [hother y hy] at hpc ⊢
      exact hi.target y hpc
  · rintro h y ⟨cpu, n, hh, hn⟩
    have hdone := ((hi.raised cpu y).mp (List.mem_of_getElem? hn)).1
    rw [hother y (hne y hdone)]
    exact hi.took h y ⟨cpu, n, hh, hn⟩
  · intro cpu
    by_cases hcpu : cpu = (s.st.send x).cpu
    · rw [hcpu]
      exact hholder
    · refine (hi.holder cpu).congr ?_ rfl ?_ ?_ (fun _ => Iff.rfl) rfl rfl
      · exact Function.update_of_ne hcpu _ _
      · intro y
        by_cases hy : y = x
        · subst hy
          rw [hself]
          exact iff_of_false (fun h => hcpu h.1.symm) fun h => hcpu h.1.symm
        · rw [hother y hy]
      · intro y hy
        refine hother y ?_
        rintro rfl
        rcases hy with hy | hy
        · exact hcpu hy.1.symm
        · exact hcpu ((hi.raised cpu y).mp hy).2.symm

omit [DecidableEq S] in
/-- One instruction of a handler run on its CPU. -/
theorem Inv.handlerGoto {s : IpiRun S H} (hi : s.Inv) (h : H) (pc : IpiHandlerPc)
    (locals : IpiArgs) (box : IpiCmdBox)
    (hfrom : (s.st.handler h).pc ≠ .idle) (hto : pc ≠ .idle)
    (htook : ∀ x, s.Takes h x →
      ({ s.st.handler h with pc := pc, locals := locals } : IpiHandler).Took (s.st.send x).args)
    (hholder : ({ s with
      st := (s.st.setBox (s.st.handler h).cpu box).handlerGoto h pc locals } : IpiRun S H).Holder
        (s.st.handler h).cpu) :
    ({ s with
      st := (s.st.setBox (s.st.handler h).cpu box).handlerGoto h pc locals } : IpiRun S H).Inv := by
  have hother : ∀ g, g ≠ h →
      ((s.st.setBox (s.st.handler h).cpu box).handlerGoto h pc locals).handler g =
        s.st.handler g := fun g hg => Function.update_of_ne hg _ _
  have hself : ((s.st.setBox (s.st.handler h).cpu box).handlerGoto h pc locals).handler h =
      { s.st.handler h with pc := pc, locals := locals } := Function.update_self ..
  constructor
  · exact hi.raised
  · intro cpu g
    rw [hi.started cpu g]
    by_cases hg : g = h
    · subst hg
      rw [hself, and_congr_left_iff]
      exact fun _ => iff_of_true hfrom hto
    · rw [hother g hg]
  · exact hi.raisedNodup
  · exact hi.startedNodup
  · exact hi.target
  · intro g x htakes
    by_cases hg : g = h
    · subst hg
      rw [hself]
      exact htook x htakes
    · rw [hother g hg]
      exact hi.took g x htakes
  · intro cpu
    by_cases hcpu : cpu = (s.st.handler h).cpu
    · rw [hcpu]
      exact hholder
    · refine (hi.holder cpu).congr ?_ rfl (fun _ => Iff.rfl) (fun _ _ => rfl) ?_ rfl rfl
      · exact Function.update_of_ne hcpu _ _
      · intro g
        by_cases hg : g = h
        · subst hg
          rw [hself]
          exact iff_of_false (fun hr => hcpu hr.1.symm) fun hr => hcpu hr.1.symm
        · rw [hother g hg]

/-! ### The calls -/

omit [DecidableEq H] in
/-- A call starts: it holds nothing yet. -/
theorem Inv.call {s : IpiRun S H} (hi : s.Inv) {x : S} (hidle : (s.st.send x).pc = .idle)
    (cpu : Nat) (args : IpiArgs) :
    ({ s with
      st := { s.st with
        send := Function.update s.st.send x (ipiCmdSendCall cpu args) } } : IpiRun S H).Inv := by
  have hne : ∀ y, (s.st.send y).pc = .done → y ≠ x := by
    rintro y hy rfl
    rw [hidle] at hy
    cases hy
  constructor
  · intro c y
    dsimp only
    rw [hi.raised c y]
    by_cases hy : y = x
    · subst hy
      rw [Function.update_self, hidle]
      exact iff_of_false (fun h => nomatch h.1) fun h => nomatch h.1
    · rw [Function.update_of_ne hy]
  · exact hi.started
  · exact hi.raisedNodup
  · exact hi.startedNodup
  · intro y hpc
    dsimp only at hpc ⊢
    by_cases hy : y = x
    · subst hy
      simp only [Function.update_self, ipiCmdSendCall]
      have hmax : CFG_MAX_CPU = 2 := rfl
      split <;> omega
    · rw [Function.update_of_ne hy] at hpc ⊢
      exact hi.target y hpc
  · rintro h y ⟨c, n, hh, hn⟩
    have hdone := ((hi.raised c y).mp (List.mem_of_getElem? hn)).1
    dsimp only
    rw [Function.update_of_ne (hne y hdone)]
    exact hi.took h y ⟨c, n, hh, hn⟩
  · intro c
    refine (hi.holder c).congr rfl rfl ?_ ?_ (fun _ => Iff.rfl) rfl rfl
    · intro y
      dsimp only
      by_cases hy : y = x
      · subst hy
        rw [Function.update_self]
        refine iff_of_false (fun h => ?_) fun h => ?_
        · rcases h.2 with h | h | h | h <;> cases h
        · rw [IpiSend.Writing, hidle] at h
          rcases h.2 with h | h | h | h <;> cases h
      · rw [Function.update_of_ne hy]
    · intro y hy
      refine Function.update_of_ne ?_ _ _
      rintro rfl
      rcases hy with hy | hy
      · rw [IpiSend.Writing, hidle] at hy
        rcases hy.2 with h | h | h | h <;> cases h
      · rw [hi.raised c y, hidle] at hy
        cases hy.1

omit [DecidableEq S] [DecidableEq H] in
/-- A call that holds a lock is the only one, and nobody reads. -/
theorem Holder.of_writing {s : IpiRun S H} {cpu : Nat} (hs : s.Holder cpu) {x : S}
    (hx : (s.st.send x).Writing cpu) :
    (s.st.ipiCmd cpu).lock = true ∧ (∀ y, (s.st.send y).Writing cpu ↔ y = x) ∧
      s.st.pending cpu = 0 ∧ (∀ h, ¬ (s.st.handler h).Reading cpu) ∧
      (s.raised cpu).length = (s.started cpu).length ∧ (s.st.send x).Wrote (s.st.ipiCmd cpu) := by
  cases hs with
  | free _ hwrite => exact absurd hx (hwrite x)
  | writing y hlock hwrite hpend hread hlen hbox =>
      obtain rfl := (hwrite x).mp hx
      exact ⟨hlock, hwrite, hpend, hread, hlen, hbox⟩
  | pending _ _ _ hwrite => exact absurd hx (hwrite x)
  | reading _ _ _ _ _ hwrite => exact absurd hx (hwrite x)

omit [DecidableEq H] in
/-- A call writes a field. -/
theorem Inv.write {s : IpiRun S H} (hi : s.Inv) {x : S} {pc : IpiSendPc} {box : IpiCmdBox}
    (hx : (s.st.send x).Writing (s.st.send x).cpu)
    (hto : pc = .cmd ∨ pc = .threadId ∨ pc = .data ∨ pc = .send) (hlock : box.lock = true)
    (hwrote : (s.st.send x).Wrote (s.st.ipiCmd (s.st.send x).cpu) →
      ({ s.st.send x with pc := pc } : IpiSend).Wrote box) :
    ({ s with st := (s.st.setBox (s.st.send x).cpu box).sendGoto x pc } : IpiRun S H).Inv := by
  obtain ⟨-, hwrite, hpend, hread, hlen, hbox⟩ := (hi.holder _).of_writing hx
  refine hi.sendGoto ?_ ?_ (.writing x ?_ (fun y => ?_) hpend hread hlen ?_)
  · rcases hx.2 with h | h | h | h <;> rw [h] <;> decide
  · rcases hto with rfl | rfl | rfl | rfl <;> decide
  · simp only [IpiState.sendGoto, IpiState.setBox, Function.update_self]
    exact hlock
  · by_cases hy : y = x
    · subst hy
      simp only [IpiState.sendGoto, IpiState.setBox, Function.update_self]
      exact iff_of_true ⟨rfl, hto⟩ trivial
    · simp only [IpiState.sendGoto, IpiState.setBox, Function.update_of_ne hy]
      exact hwrite y
  · simp only [IpiState.sendGoto, IpiState.setBox, Function.update_self]
    exact hwrote hbox

omit [DecidableEq H] in
/-- A call takes a lock. -/
theorem Inv.lock {s : IpiRun S H} (hi : s.Inv) {x : S} (hpc : (s.st.send x).pc = .lock)
    (hfree : (s.st.ipiCmd (s.st.send x).cpu).lock = false) :
    ({ s with
      st := (s.st.setBox (s.st.send x).cpu
        { s.st.ipiCmd (s.st.send x).cpu with lock := true }).sendGoto x .cmd } :
          IpiRun S H).Inv := by
  have hs := hi.holder (s.st.send x).cpu
  cases hs with
  | writing _ hlock => simp [hlock] at hfree
  | pending _ _ hlock => simp [hlock] at hfree
  | reading _ _ _ _ hlock => simp [hlock] at hfree
  | free _ hwrite hpend hread hlen =>
      refine hi.sendGoto ?_ ?_ (.writing x ?_ (fun y => ?_) hpend hread hlen ?_)
      · rw [hpc]
        decide
      · decide
      · simp only [IpiState.sendGoto, IpiState.setBox, Function.update_self]
      · by_cases hy : y = x
        · subst hy
          simp only [IpiState.sendGoto, IpiState.setBox, Function.update_self]
          exact iff_of_true ⟨rfl, Or.inl rfl⟩ trivial
        · simp only [IpiState.sendGoto, IpiState.setBox, Function.update_of_ne hy]
          exact iff_of_false (hwrite y) hy
      · simp only [IpiState.sendGoto, IpiState.setBox, Function.update_self]
        simp [IpiSend.Wrote]

omit [DecidableEq S] [DecidableEq H] in
/-- `acoral_ipi_send` raises an interrupt at each CPU there is. -/
theorem acoralIpiSend_of_lt (s : IpiState S H) {cpu : Nat} (hcpu : cpu < CFG_MAX_CPU) :
    acoralIpiSend s cpu =
      { s with pending := Function.update s.pending cpu (s.pending cpu + 1) } := by
  have hmax : CFG_MAX_CPU = 2 := rfl
  have hcases : cpu = 0 ∨ cpu = 1 := by omega
  rcases hcases with rfl | rfl <;> rfl

omit [DecidableEq H] in
/-- A call raises the interrupt. -/
theorem Inv.raise {s : IpiRun S H} (hi : s.Inv) {x : S} {c : Nat} (hc : (s.st.send x).cpu = c)
    (hpc : (s.st.send x).pc = .send) :
    ({ s with
      st := (acoralIpiSend s.st c).sendGoto x .done
      raised := Function.update s.raised c (s.raised c ++ [x]) } : IpiRun S H).Inv := by
  have hx : (s.st.send x).Writing c := ⟨hc, Or.inr (Or.inr (Or.inr hpc))⟩
  obtain ⟨hlock, hwrite, hpend, hread, hlen, hwrote⟩ := (hi.holder c).of_writing hx
  have hlt : c < CFG_MAX_CPU := by
    rw [← hc]
    refine hi.target x ?_
    rw [hpc]
    decide
  have hnew : x ∉ s.raised c := by
    intro hmem
    rw [hi.raised, hpc] at hmem
    cases hmem.1
  rw [acoralIpiSend_of_lt s.st hlt]
  constructor
  · intro cpu y
    simp only [IpiState.sendGoto]
    by_cases hcpu : cpu = c
    · subst hcpu
      rw [Function.update_self, List.mem_append, List.mem_singleton, hi.raised cpu y]
      by_cases hy : y = x
      · subst hy
        rw [Function.update_self]
        exact iff_of_true (Or.inr rfl) ⟨rfl, hc⟩
      · rw [Function.update_of_ne hy, or_iff_left hy]
    · rw [Function.update_of_ne hcpu, hi.raised cpu y]
      by_cases hy : y = x
      · subst hy
        rw [Function.update_self]
        exact iff_of_false (fun h => hcpu (h.2.symm.trans hc)) fun h => hcpu (h.2.symm.trans hc)
      · rw [Function.update_of_ne hy]
  · exact hi.started
  · intro cpu
    by_cases hcpu : cpu = c
    · subst hcpu
      simp only [Function.update_self]
      exact List.nodup_append.mpr ⟨hi.raisedNodup cpu, by simp, fun a ha b hb he =>
        hnew (List.mem_singleton.mp hb ▸ he ▸ ha)⟩
    · simp only [Function.update_of_ne hcpu]
      exact hi.raisedNodup cpu
  · exact hi.startedNodup
  · intro y hy
    simp only [IpiState.sendGoto] at hy ⊢
    by_cases hyx : y = x
    · subst hyx
      rw [Function.update_self]
      exact hc ▸ hlt
    · rw [Function.update_of_ne hyx] at hy ⊢
      exact hi.target y hy
  · rintro h y ⟨cpu, n, hh, hn⟩
    -- no handler run takes the new call yet
    have hold : (s.raised cpu)[n]? = some y := by
      by_cases hcpu : cpu = c
      · subst hcpu
        have hn' : (s.raised cpu ++ [x])[n]? = some y := by
          simpa only [Function.update_self] using hn
        have hlt' : n < (s.raised cpu).length := hlen ▸ (List.getElem?_eq_some_iff.mp hh).1
        rwa [List.getElem?_append_left hlt'] at hn'
      · simpa only [Function.update_of_ne hcpu] using hn
    have hne : y ≠ x := by
      rintro rfl
      have hdone := ((hi.raised cpu y).mp (List.mem_of_getElem? hold)).1
      rw [hpc] at hdone
      cases hdone
    simp only [IpiState.sendGoto, Function.update_of_ne hne]
    exact hi.took h y ⟨cpu, n, hh, hold⟩
  · intro cpu
    by_cases hcpu : cpu = c
    · subst hcpu
      refine .pending x (s.raised cpu) hlock (fun y => ?_) ?_ hread ?_ hlen ?_
      · simp only [IpiState.sendGoto]
        by_cases hy : y = x
        · subst hy
          rw [Function.update_self]
          rintro ⟨-, h | h | h | h⟩ <;> cases h
        · rw [Function.update_of_ne hy]
          exact fun h => hy ((hwrite y).mp h)
      · simp only [IpiState.sendGoto, Function.update_self, hpend]
      · simp only [Function.update_self]
      · simp only [IpiState.sendGoto, Function.update_self]
        exact ⟨hwrote.1 (Or.inr (Or.inr hpc)), hwrote.2.1 (Or.inr hpc), hwrote.2.2 hpc⟩
    · refine (hi.holder cpu).congr rfl ?_ ?_ ?_ (fun _ => Iff.rfl) ?_ rfl
      · exact Function.update_of_ne hcpu _ _
      · intro y
        simp only [IpiState.sendGoto]
        by_cases hy : y = x
        · subst hy
          rw [Function.update_self]
          exact iff_of_false (fun h => hcpu (h.1.symm.trans hc)) fun h => hcpu (h.1.symm.trans hc)
        · rw [Function.update_of_ne hy]
      · intro y hy
        refine Function.update_of_ne ?_ _ _
        rintro rfl
        rcases hy with hy | hy
        · exact hcpu (hy.1.symm.trans hc)
        · exact hcpu (((hi.raised cpu y).mp hy).2.symm.trans hc)
      · exact Function.update_of_ne hcpu _ _

/-! ### The handler -/

omit [DecidableEq S] in
/-- A pending interrupt is taken: its handler run takes the call that
raised it. -/
theorem Inv.intr {s : IpiRun S H} (hi : s.Inv) {h : H} {c : Nat} (locals : IpiArgs)
    (hidle : (s.st.handler h).pc = .idle) (hpending : s.st.pending c ≠ 0) :
    ({ s with
      st :=
        { s.st with
          pending := Function.update s.st.pending c (s.st.pending c - 1)
          handler := Function.update s.st.handler h { pc := .cmd, cpu := c, locals := locals } }
      started := Function.update s.started c (s.started c ++ [h]) } : IpiRun S H).Inv := by
  have hnew : ∀ cpu, h ∉ s.started cpu := by
    intro cpu hmem
    rw [hi.started, hidle] at hmem
    exact hmem.1 rfl
  constructor
  · exact hi.raised
  · intro cpu g
    dsimp only
    by_cases hcpu : cpu = c
    · subst hcpu
      rw [Function.update_self, List.mem_append, List.mem_singleton, hi.started cpu g]
      by_cases hg : g = h
      · subst hg
        rw [Function.update_self]
        exact iff_of_true (Or.inr rfl) ⟨nofun, rfl⟩
      · rw [Function.update_of_ne hg, or_iff_left hg]
    · rw [Function.update_of_ne hcpu, hi.started cpu g]
      by_cases hg : g = h
      · subst hg
        rw [Function.update_self, hidle]
        exact iff_of_false (fun hs => hs.1 rfl) fun hs => hcpu hs.2.symm
      · rw [Function.update_of_ne hg]
  · exact hi.raisedNodup
  · intro cpu
    by_cases hcpu : cpu = c
    · subst hcpu
      simp only [Function.update_self]
      exact List.nodup_append.mpr ⟨hi.startedNodup cpu, by simp, fun a ha b hb he =>
        hnew cpu (List.mem_singleton.mp hb ▸ he ▸ ha)⟩
    · simp only [Function.update_of_ne hcpu]
      exact hi.startedNodup cpu
  · exact hi.target
  · rintro g x ⟨cpu, n, hg, hn⟩
    dsimp only
    by_cases hgh : g = h
    · subst hgh
      -- it has read nothing yet
      rw [Function.update_self]
      exact ⟨fun hpc => absurd rfl hpc, fun hpc => absurd rfl hpc, fun hpc => by
        rcases hpc with hpc | hpc <;> cases hpc⟩
    · rw [Function.update_of_ne hgh]
      refine hi.took g x ⟨cpu, n, ?_, hn⟩
      by_cases hcpu : cpu = c
      · subst hcpu
        have hg' : (s.started cpu ++ [h])[n]? = some g := by
          simpa only [Function.update_self] using hg
        rw [List.getElem?_append] at hg'
        split at hg'
        · exact hg'
        · have hmem := List.mem_singleton.mp (List.mem_of_getElem? hg')
          exact absurd hmem hgh
      · simpa only [Function.update_of_ne hcpu] using hg
  · intro cpu
    by_cases hcpu : cpu = c
    · subst hcpu
      cases hi.holder cpu with
      | free _ _ hpend => exact absurd hpend hpending
      | writing _ _ _ hpend => exact absurd hpend hpending
      | reading _ _ _ _ _ _ hpend => exact absurd hpend hpending
      | pending x l hlock hwrite hpend hread hraised hlen hbox =>
          refine .reading x h l (s.started cpu) hlock hwrite ?_ (fun g => ?_) hraised ?_ hlen hbox
          · simp only [Function.update_self, hpend]
          · dsimp only
            by_cases hg : g = h
            · subst hg
              rw [Function.update_self]
              exact iff_of_true ⟨rfl, Or.inl rfl⟩ rfl
            · rw [Function.update_of_ne hg]
              exact iff_of_false (hread g) hg
          · simp only [Function.update_self]
    · refine (hi.holder cpu).congr rfl ?_ (fun _ => Iff.rfl) (fun _ _ => rfl) ?_ rfl ?_
      · exact Function.update_of_ne hcpu _ _
      · intro g
        dsimp only
        by_cases hg : g = h
        · subst hg
          rw [Function.update_self]
          refine iff_of_false (fun hr => hcpu hr.1.symm) fun hr => ?_
          rw [IpiHandler.Reading, hidle] at hr
          rcases hr.2 with hr | hr | hr | hr <;> cases hr
        · rw [Function.update_of_ne hg]
      · exact Function.update_of_ne hcpu _ _

omit [DecidableEq S] [DecidableEq H] in
/-- A handler run that has not given the lock back reads the arguments of
the last call that raised the interrupt. -/
theorem Inv.of_reading {s : IpiRun S H} (hi : s.Inv) {h : H} {cpu : Nat}
    (hh : (s.st.handler h).Reading cpu) :
    ∃ x l l', (s.st.ipiCmd cpu).lock = true ∧ (∀ y, ¬ (s.st.send y).Writing cpu) ∧
      s.st.pending cpu = 0 ∧ (∀ g, (s.st.handler g).Reading cpu ↔ g = h) ∧
      s.raised cpu = l ++ [x] ∧ s.started cpu = l' ++ [h] ∧ l.length = l'.length ∧
      (s.st.ipiCmd cpu).Holds (s.st.send x).args ∧ ∀ y, s.Takes h y → y = x := by
  cases hi.holder cpu with
  | free _ _ _ hread => exact absurd hh (hread h)
  | writing _ _ _ _ hread => exact absurd hh (hread h)
  | pending _ _ _ _ _ hread => exact absurd hh (hread h)
  | reading x g l l' hlock hwrite hpend hread hraised hstarted hlen hbox =>
      obtain rfl := (hread h).mp hh
      exact ⟨x, l, l', hlock, hwrite, hpend, hread, hraised, hstarted, hlen, hbox,
        fun y hy => hi.takes_eq hraised hstarted hlen hy⟩

omit [DecidableEq S] in
/-- A handler run reads a field. -/
theorem Inv.read {s : IpiRun S H} (hi : s.Inv) {h : H} {pc : IpiHandlerPc} {locals : IpiArgs}
    (hh : (s.st.handler h).Reading (s.st.handler h).cpu)
    (hto : pc = .cmd ∨ pc = .threadId ∨ pc = .data ∨ pc = .unlock)
    (htook : ∀ args, (s.st.ipiCmd (s.st.handler h).cpu).Holds args →
      (s.st.handler h).Took args →
        ({ s.st.handler h with pc := pc, locals := locals } : IpiHandler).Took args) :
    ({ s with st := s.st.handlerGoto h pc locals } : IpiRun S H).Inv := by
  obtain ⟨x, l, l', hlock, hwrite, hpend, hread, hraised, hstarted, hlen, hbox, htakes⟩ :=
    hi.of_reading hh
  have hsame : s.st.setBox (s.st.handler h).cpu (s.st.ipiCmd (s.st.handler h).cpu) = s.st := by
    rw [IpiState.setBox, Function.update_eq_self]
  have hmove := hi.handlerGoto h pc locals (s.st.ipiCmd (s.st.handler h).cpu)
  rw [hsame] at hmove
  refine hmove ?_ ?_ (fun y hy => ?_) ?_
  · rcases hh.2 with hpc | hpc | hpc | hpc <;> rw [hpc] <;> decide
  · rcases hto with rfl | rfl | rfl | rfl <;> decide
  · refine htook _ ?_ (hi.took h y hy)
    rw [htakes y hy]
    exact hbox
  · refine .reading x h l l' hlock hwrite hpend (fun g => ?_) hraised hstarted hlen hbox
    by_cases hg : g = h
    · subst hg
      simp only [IpiState.handlerGoto, Function.update_self]
      exact iff_of_true ⟨rfl, hto⟩ trivial
    · simp only [IpiState.handlerGoto, Function.update_of_ne hg]
      exact hread g

omit [DecidableEq S] in
/-- A handler run gives the lock back. -/
theorem Inv.unlock {s : IpiRun S H} (hi : s.Inv) {h : H} (hpc : (s.st.handler h).pc = .unlock) :
    ({ s with
      st := (s.st.setBox (s.st.handler h).cpu
        { s.st.ipiCmd (s.st.handler h).cpu with lock := false }).handlerGoto h .done
          (s.st.handler h).locals } : IpiRun S H).Inv := by
  obtain ⟨x, l, l', hlock, hwrite, hpend, hread, hraised, hstarted, hlen, -, -⟩ :=
    hi.of_reading ⟨rfl, Or.inr (Or.inr (Or.inr hpc))⟩
  refine hi.handlerGoto h _ _ _ ?_ nofun (fun y hy => ?_) ?_
  · rw [hpc]
    decide
  · have htook := hi.took h y hy
    exact ⟨fun _ => htook.1 (by rw [hpc]; decide), fun _ _ => htook.2.1 (by rw [hpc]; decide)
      (by rw [hpc]; decide), fun _ => htook.2.2 (Or.inl hpc)⟩
  · refine .free ?_ hwrite hpend (fun g => ?_) ?_
    · simp only [IpiState.handlerGoto, IpiState.setBox, Function.update_self]
    · simp only [IpiState.handlerGoto, IpiState.setBox]
      by_cases hg : g = h
      · subst hg
        rw [Function.update_self]
        rintro ⟨-, hr | hr | hr | hr⟩ <;> cases hr
      · rw [Function.update_of_ne hg]
        exact fun hr => hg ((hread g).mp hr)
    · rw [hraised, hstarted, List.length_append, List.length_append, hlen]
      rfl

/-! ### Runs -/

omit [DecidableEq S] [DecidableEq H] in
theorem inv_start (box : Nat → IpiCmdBox) : (start box : IpiRun S H).Inv := by
  constructor
  · exact fun cpu x => iff_of_false List.not_mem_nil fun h => nomatch h.1
  · exact fun cpu h => iff_of_false List.not_mem_nil fun hh => hh.1 rfl
  · exact fun cpu => List.nodup_nil
  · exact fun cpu => List.nodup_nil
  · exact fun x hx => absurd rfl hx
  · rintro h x ⟨cpu, n, hh, -⟩
    cases hh
  · intro cpu
    refine .free rfl (fun x hx => ?_) rfl (fun h hh => ?_) rfl
    · rcases hx.2 with hx | hx | hx | hx <;> cases hx
    · rcases hh.2 with hh | hh | hh | hh <;> cases hh

theorem inv_send {s : IpiRun S H} (hi : s.Inv) {x : S} {s' : IpiRun S H}
    (hstep : s.step (.send x) = some s') : s'.Inv := by
  obtain ⟨st, hst, rfl⟩ := Option.map_eq_some_iff.mp hstep
  unfold ipiCmdSendStep at hst
  simp only at hst
  split at hst
  · cases hst
  · cases hst
  · rename_i hpc
    split at hst
    · cases hst
    · rename_i hfree
      cases hst
      rw [if_neg (by rw [hpc]; decide)]
      exact hi.lock hpc (Bool.eq_false_iff.mpr hfree)
  · rename_i hpc
    cases hst
    rw [if_neg (by rw [hpc]; decide)]
    refine hi.write ⟨rfl, Or.inl hpc⟩ (Or.inr (Or.inl rfl)) ?_ fun hwrote => ?_
    · exact ((hi.holder _).of_writing ⟨rfl, Or.inl hpc⟩).1
    · simp [IpiSend.Wrote]
  · rename_i hpc
    cases hst
    rw [if_neg (by rw [hpc]; decide)]
    refine hi.write ⟨rfl, Or.inr (Or.inl hpc)⟩ (Or.inr (Or.inr (Or.inl rfl))) ?_ fun hwrote => ?_
    · exact ((hi.holder _).of_writing ⟨rfl, Or.inr (Or.inl hpc)⟩).1
    · simpa [IpiSend.Wrote] using hwrote.1 (Or.inl hpc)
  · rename_i hpc
    cases hst
    rw [if_neg (by rw [hpc]; decide)]
    refine hi.write ⟨rfl, Or.inr (Or.inr (Or.inl hpc))⟩ (Or.inr (Or.inr (Or.inr rfl))) ?_
      fun hwrote => ?_
    · exact ((hi.holder _).of_writing ⟨rfl, Or.inr (Or.inr (Or.inl hpc))⟩).1
    · simpa [IpiSend.Wrote] using ⟨hwrote.1 (Or.inr (Or.inl hpc)), hwrote.2.1 (Or.inl hpc)⟩
  · rename_i hpc
    cases hst
    rw [if_pos hpc]
    exact hi.raise rfl hpc

theorem inv_handler {s : IpiRun S H} (hi : s.Inv) {h : H} {s' : IpiRun S H}
    (hstep : s.step (.handler h) = some s') : s'.Inv := by
  obtain ⟨st, hst, rfl⟩ := Option.map_eq_some_iff.mp hstep
  unfold ipiCmdHandlerStep at hst
  simp only at hst
  split at hst
  · cases hst
  · cases hst
  · rename_i hpc
    cases hst
    refine hi.read ⟨rfl, Or.inl hpc⟩ (Or.inr (Or.inl rfl)) fun args hbox _ => ?_
    simpa [IpiHandler.Took] using hbox.1
  · rename_i hpc
    cases hst
    refine hi.read ⟨rfl, Or.inr (Or.inl hpc)⟩ (Or.inr (Or.inr (Or.inl rfl))) fun args hbox ht => ?_
    simpa [IpiHandler.Took] using ⟨ht.1 (by rw [hpc]; decide), hbox.2.1⟩
  · rename_i hpc
    cases hst
    refine hi.read ⟨rfl, Or.inr (Or.inr (Or.inl hpc))⟩ (Or.inr (Or.inr (Or.inr rfl)))
      fun args hbox ht => ?_
    simpa [IpiHandler.Took] using ⟨ht.1 (by rw [hpc]; decide),
      ht.2.1 (by rw [hpc]; decide) (by rw [hpc]; decide), hbox.2.2⟩
  · rename_i hpc
    cases hst
    exact hi.unlock hpc

theorem inv_step {s s' : IpiRun S H} {op : IpiOp S H} (hi : s.Inv) (hstep : s.step op = some s') :
    s'.Inv := by
  cases op with
  | call x cpu args =>
      simp only [step] at hstep
      split at hstep
      · rename_i hidle
        cases hstep
        exact hi.call hidle cpu args
      · cases hstep
  | send x => exact inv_send hi hstep
  | intr h cpu locals =>
      simp only [step] at hstep
      split at hstep
      · rename_i hready
        cases hstep
        exact hi.intr locals hready.1 hready.2
      · cases hstep
  | handler h => exact inv_handler hi hstep

theorem inv_of_run {box : Nat → IpiCmdBox} {ops : List (IpiOp S H)} {s : IpiRun S H}
    (hrun : (start box).run ops = some s) : s.Inv :=
  Lib.run_induct (fun _ _ _ hi hstep => inv_step hi hstep) (inv_start box) hrun

/-! ### The correspondence -/

omit [DecidableEq S] [DecidableEq H] in
/-- One handler run for each interrupt raised, apart from a pending one. -/
theorem Inv.length {s : IpiRun S H} (hi : s.Inv) (cpu : Nat) :
    (s.raised cpu).length = (s.started cpu).length + s.st.pending cpu ∧ s.st.pending cpu ≤ 1 := by
  cases hi.holder cpu with
  | free _ _ hpend _ hlen =>
      rw [hpend, hlen]
      exact ⟨rfl, Nat.zero_le 1⟩
  | writing _ _ _ hpend _ hlen =>
      rw [hpend, hlen]
      exact ⟨rfl, Nat.zero_le 1⟩
  | pending x l _ _ hpend _ hraised hlen =>
      rw [hpend, hraised, List.length_append, hlen]
      exact ⟨rfl, Nat.le_refl 1⟩
  | reading x h l l' _ _ hpend _ hraised hstarted hlen =>
      rw [hpend, hraised, hstarted, List.length_append, List.length_append, hlen]
      exact ⟨rfl, Nat.zero_le 1⟩

omit [DecidableEq S] [DecidableEq H] in
/-- A handler run takes a call on its own CPU. -/
theorem Inv.takes_cpu {s : IpiRun S H} (hi : s.Inv) {h : H} {x : S} {cpu n : Nat}
    (hh : (s.started cpu)[n]? = some h) (hx : (s.raised cpu)[n]? = some x) :
    (s.st.handler h).cpu = cpu ∧ (s.st.send x).cpu = cpu :=
  ⟨((hi.started cpu h).mp (List.mem_of_getElem? hh)).2,
    ((hi.raised cpu x).mp (List.mem_of_getElem? hx)).2⟩

omit [DecidableEq S] [DecidableEq H] in
theorem Inv.takes_unique {s : IpiRun S H} (hi : s.Inv) {h : H} {x y : S} (hx : s.Takes h x)
    (hy : s.Takes h y) : y = x := by
  obtain ⟨cpu, n, hh, hx⟩ := hx
  obtain ⟨cpu', n', hh', hy⟩ := hy
  obtain rfl : cpu' = cpu := (hi.takes_cpu hh' hy).1.symm.trans (hi.takes_cpu hh hx).1
  have hlt : n' < (s.started cpu').length := (List.getElem?_eq_some_iff.mp hh').1
  obtain rfl : n' = n := (List.getElem?_inj hlt (hi.startedNodup cpu')).mp (hh'.trans hh.symm)
  exact Option.some.inj (hy.symm.trans hx)

omit [DecidableEq S] [DecidableEq H] in
theorem Inv.taken_once {s : IpiRun S H} (hi : s.Inv) {h g : H} {x : S} (hh : s.Takes h x)
    (hg : s.Takes g x) : g = h := by
  obtain ⟨cpu, n, hh, hx⟩ := hh
  obtain ⟨cpu', n', hg, hx'⟩ := hg
  obtain rfl : cpu' = cpu := (hi.takes_cpu hg hx').2.symm.trans (hi.takes_cpu hh hx).2
  have hlt : n' < (s.raised cpu').length := (List.getElem?_eq_some_iff.mp hx').1
  obtain rfl : n' = n := (List.getElem?_inj hlt (hi.raisedNodup cpu')).mp (hx'.trans hx.symm)
  exact Option.some.inj (hg.symm.trans hh)

/-- The commands that wait at a CPU for their interrupt to be taken. -/
def waiting (s : IpiRun S H) (cpu : Nat) : List S := (s.raised cpu).drop (s.started cpu).length

omit [DecidableEq S] [DecidableEq H] in
theorem Inv.mem_waiting {s : IpiRun S H} (hi : s.Inv) (cpu : Nat) (x : S) :
    x ∈ s.waiting cpu ↔
      ((s.st.send x).pc = .done ∧ (s.st.send x).cpu = cpu) ∧ ∀ h, ¬ s.Takes h x := by
  rw [← hi.raised cpu x]
  constructor
  · intro hx
    obtain ⟨n, hn⟩ := List.mem_iff_getElem?.mp hx
    rw [waiting, List.getElem?_drop] at hn
    refine ⟨List.mem_of_getElem? hn, ?_⟩
    rintro h ⟨cpu', m, hh, hm⟩
    obtain rfl : cpu' = cpu := (hi.takes_cpu hh hm).2.symm.trans
      ((hi.raised cpu x).mp (List.mem_of_getElem? hn)).2
    have hlt : m < (s.started cpu').length := (List.getElem?_eq_some_iff.mp hh).1
    have hlt' : m < (s.raised cpu').length := (List.getElem?_eq_some_iff.mp hm).1
    have heq := (List.getElem?_inj hlt' (hi.raisedNodup cpu')).mp (hm.trans hn.symm)
    omega
  · rintro ⟨hx, hnot⟩
    obtain ⟨n, hn⟩ := List.mem_iff_getElem?.mp hx
    have hle : (s.started cpu).length ≤ n := by
      refine Nat.le_of_not_lt fun hlt => ?_
      exact hnot (s.started cpu)[n] ⟨cpu, n, List.getElem?_eq_getElem hlt, hn⟩
    refine List.mem_iff_getElem?.mpr ⟨n - (s.started cpu).length, ?_⟩
    rw [waiting, List.getElem?_drop, Nat.add_sub_cancel' hle]
    exact hn

end IpiRun

/-- The handler runs take the commands that have been sent, each once. -/
structure IpiExactlyOnce (s : IpiRun S H) : Prop where
  /-- each handler run takes one call -/
  takes : ∀ h, (s.st.handler h).pc ≠ .idle → ∃! x, s.Takes h x
  /-- what it has read are the arguments of that call, sent to its CPU -/
  reads : ∀ h x, s.Takes h x →
    (s.st.handler h).cpu = (s.st.send x).cpu ∧ (s.st.handler h).Took (s.st.send x).args
  /-- no two handler runs take the same call -/
  once : ∀ h g x, s.Takes h x → s.Takes g x → g = h
  /-- while a call writes to a mailbox, the calls before it have been taken -/
  noOverwrite : ∀ x cpu, (s.st.send x).Writing cpu →
    ∀ y, (s.st.send y).pc = .done → (s.st.send y).cpu = cpu →
      ∃ h, s.Takes h y ∧ (s.st.handler h).pc = .done
  /-- a pending interrupt stands for a call that no handler run has taken -/
  pending : ∀ cpu, s.st.pending cpu ≤ 1 ∧ (s.waiting cpu).length = s.st.pending cpu ∧
    ∀ x, x ∈ s.waiting cpu ↔
      ((s.st.send x).pc = .done ∧ (s.st.send x).cpu = cpu) ∧ ∀ h, ¬ s.Takes h x

/-- Take any interleaving of the instructions of calls and handler runs, in
which each interrupt raised is taken once. The handler runs and the calls
that raised an interrupt correspond one to one, but for a last call on each
CPU of which the interrupt is pending. -/
theorem ipi_mailbox {box : Nat → IpiCmdBox} {ops : List (IpiOp S H)} {s : IpiRun S H}
    (hrun : (IpiRun.start box).run ops = some s) : IpiExactlyOnce s := by
  have hi := IpiRun.inv_of_run hrun
  constructor
  · intro h hpc
    have hmem := (hi.started (s.st.handler h).cpu h).mpr ⟨hpc, rfl⟩
    obtain ⟨n, hn⟩ := List.mem_iff_getElem?.mp hmem
    have hlt : n < (s.started (s.st.handler h).cpu).length := (List.getElem?_eq_some_iff.mp hn).1
    have hlen := (hi.length (s.st.handler h).cpu).1
    have hlt' : n < (s.raised (s.st.handler h).cpu).length := by omega
    have htakes : s.Takes h (s.raised (s.st.handler h).cpu)[n] :=
      ⟨_, n, hn, List.getElem?_eq_getElem hlt'⟩
    exact ⟨_, htakes, fun y hy => hi.takes_unique htakes hy⟩
  · intro h x htakes
    refine ⟨?_, hi.took h x htakes⟩
    obtain ⟨cpu, n, hh, hx⟩ := htakes
    exact (hi.takes_cpu hh hx).1.trans (hi.takes_cpu hh hx).2.symm
  · exact fun h g x hh hg => hi.taken_once hh hg
  · intro x cpu hx y hpc hcpu
    obtain ⟨-, -, -, hread, hlen, -⟩ := (hi.holder cpu).of_writing hx
    obtain ⟨n, hn⟩ := List.mem_iff_getElem?.mp ((hi.raised cpu y).mpr ⟨hpc, hcpu⟩)
    have hlt : n < (s.started cpu).length := hlen ▸ (List.getElem?_eq_some_iff.mp hn).1
    refine ⟨(s.started cpu)[n], ⟨cpu, n, List.getElem?_eq_getElem hlt, hn⟩, ?_⟩
    have hstarted := (hi.started cpu _).mp (List.getElem_mem hlt)
    have hnot := hread (s.started cpu)[n]
    cases hstate : (s.st.handler (s.started cpu)[n]).pc with
    | idle => exact absurd hstate hstarted.1
    | cmd => exact absurd ⟨hstarted.2, Or.inl hstate⟩ hnot
    | threadId => exact absurd ⟨hstarted.2, Or.inr (Or.inl hstate)⟩ hnot
    | data => exact absurd ⟨hstarted.2, Or.inr (Or.inr (Or.inl hstate))⟩ hnot
    | unlock => exact absurd ⟨hstarted.2, Or.inr (Or.inr (Or.inr hstate))⟩ hnot
    | done => rfl
  · intro cpu
    obtain ⟨hlen, hle⟩ := hi.length cpu
    refine ⟨hle, ?_, hi.mem_waiting cpu⟩
    rw [IpiRun.waiting, List.length_drop]
    omega

/-- Two calls to CPU 1 and one to CPU 0. The second waits for the handler
run of the first. -/
def twoSenders : List (IpiOp Nat Nat) :=
  [.call 0 1 ⟨2, 7, 0⟩, .call 1 1 ⟨4, 8, 0⟩, .send 0, .call 2 0 ⟨2, 9, 0⟩, .send 0, .send 2,
    .send 0, .send 0, .send 0, .intr 0 1 ⟨0, 0, 0⟩, .handler 0, .send 2, .handler 0, .handler 0,
    .handler 0, .send 1, .send 1, .send 1, .send 1, .send 1]

theorem ipi_mailbox_twoSenders :
    ∃ s, (IpiRun.start fun _ => ⟨false, 0, 0, 0⟩).run twoSenders = some s ∧
      s.raised 1 = [0, 1] ∧ s.started 1 = [0] ∧ s.st.pending 1 = 1 ∧ IpiExactlyOnce s := by
  have heval : ((IpiRun.start fun _ => ⟨false, 0, 0, 0⟩).run twoSenders).any (fun s =>
      decide (s.raised 1 = [0, 1] ∧ s.started 1 = [0] ∧ s.st.pending 1 = 1)) = true := by
    decide +kernel
  obtain ⟨s, hrun, hend⟩ := (Option.any_eq_true ..).mp heval
  obtain ⟨hraised, hstarted, hpending⟩ := of_decide_eq_true hend
  exact ⟨s, hrun, hraised, hstarted, hpending, ipi_mailbox hrun⟩

end ACoral
