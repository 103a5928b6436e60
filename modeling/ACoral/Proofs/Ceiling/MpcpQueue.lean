import ACoral.Proofs.Ceiling.Mpcp

/-!
# `ACoral.Proofs.Ceiling.MpcpQueue`: the wait queue of an MPCP system

`acoral_mpcp_post` readies the head of the wait queue and leaves it there, and
`acoral_mpcp_pend` does not take its caller out when it goes on.

* `mpcp_waitQueue`: as long as no post is made while a thread is in the queue
  (`postsAlone`), the queue holds exactly the threads that wait, all of them
  are suspended, and some resource is in use if there is one. The first post
  with a waiter leaves a READY thread in the queue.
* `mpcp_post_stale`: after a post has readied its head, a second one readies
  it again, and the thread behind it sleeps while nothing is held.

Nothing is asked of the priorities: a pend that passes the ceiling test of a
resource in use blocks in its semaphore, whose queue is apart.
-/

set_option autoImplicit false
set_option linter.unusedSectionVars false

namespace ACoral

open CeilingState
open Lib (run guarded guarded_induct)

variable {R T : Type} [DecidableEq R] [DecidableEq T]

/-- A post by the owner finds the wait queue of its system empty. -/
def postsAlone (x : MpcpRun R T) : CeilingOp R T → Bool
  | .call .post cur r =>
      decide (x.st.owner r ≠ some cur ∨ x.st.waitHead (x.st.cpu cur) = some none)
  | _ => true

/-! ### The queues -/

/-- The end of a pend: it returns, or its caller is suspended in the wait
queue of the semaphore. No resource becomes free. -/
def PendEnds (fuel : Nat) (cur : T) (r : R) (s : CeilingState R Nat T) (res : CeilingResult)
    (s' : CeilingState R Nat T) : Prop :=
  (∀ q, s.owner q ≠ none → s'.owner q ≠ none) ∧
  ((∃ e, res = .ret e) ∧ s'.ipc.links = s.ipc.links ∧ s'.ipc.sched = s.ipc.sched ∨
    res = .blocked ∧ ∃ y : IpcState (CeilingObj R Nat) T, y.links = s.ipc.links ∧
      y.sched = (s.ipc.suspendSelf cur).sched ∧
      acoralIpcWaitQueueAdd fuel y (.sem r) cur = some s'.ipc)

theorem mpcpTake_ends {fuel : Nat} {cur : T} {r : R} {s s' : CeilingState R Nat T}
    {res : CeilingResult} (htake : mpcpTake fuel cur r s = some (res, s')) :
    PendEnds fuel cur r s res s' := by
  have hown : (∀ q, s.owner q ≠ none → (s.own r cur).owner q ≠ none) ∧
      (s.own r cur).ipc.links = s.ipc.links ∧ (s.own r cur).ipc.sched = s.ipc.sched := by
    unfold CeilingState.own
    split
    · refine ⟨fun q hq => ?_, rfl, rfl⟩
      unfold CeilingState.setOwner CeilingState.owner IpcState.setIpc
      by_cases hqr : q = r
      · simp [hqr]
      · simpa [hqr, CeilingState.owner] using hq
    · exact ⟨fun _ hq => hq, rfl, rfl⟩
  obtain ⟨hsem, hcases⟩ := semPend_cases htake
  refine ⟨fun q hq => ?_, ?_⟩
  · rw [hsem.owner q]
    exact hown.1 q hq
  · rcases hcases with ⟨hret, hlinks, hsched⟩ | ⟨hblocked, hadd⟩
    · exact Or.inl ⟨hret, hlinks.trans hown.2.1, hsched.trans hown.2.2⟩
    · refine Or.inr ⟨hblocked, (incCount (s.own r cur).ipc (.sem r)).suspendSelf cur, hown.2.1,
        ?_, hadd⟩
      show (acoralSuspendThread ((s.own r cur).ipc.sched.thread cur).cpu
        (s.own r cur).ipc.sched cur).2 = _
      rw [hown.2.2]
      rfl

theorem mpcpLocal_ends {fuel k : Nat} {cur : T} {r : R} {s s' : CeilingState R Nat T}
    {res : CeilingResult} (hlocal : mpcpLocal fuel cur r k s = some (res, s')) :
    PendEnds fuel cur r s res s' := by
  unfold mpcpLocal at hlocal
  split at hlocal
  · obtain ⟨s₁, hpush, hlocal⟩ := Option.bind_eq_some_iff.mp hlocal
    have hends := mpcpTake_ends hlocal
    have hipc : (s₁.setPrioSwitch r (BitVec.ofNat 8 (s₁.prio cur))).ipc = s.ipc :=
      (SameButStack.push hpush).ipc
    unfold PendEnds CeilingState.owner at hends ⊢
    rwa [hipc] at hends
  · exact mpcpTake_ends hlocal

/-- The queues of the resources of a CPU, all of them local. -/
structure LocalQueues (c : Nat) (x : MpcpRun R T) (Q : CeilingObj R Nat → List T) : Prop
    extends x.st.ipc.Queues Q where
  type : ∀ r, (x.st.res r).type = .LOCAL
  cpu : ∀ t, x.st.cpu t = c
  linked : ∀ k, ∀ t ∈ Q (.wait k), ∃ r, x.pc t = .wait r
  blocked : ∀ r t, t ∈ Q (.sem r) ↔ x.pc t = .sem r
  waiting : ∀ t r, x.pc t = .wait r → t ∈ Q (.wait c) ∧ x.st.Asleep t
  used : Q (.wait c) ≠ [] → ∃ r, x.st.owner r ≠ none

namespace LocalQueues

variable {c fuel : Nat} {x x' : MpcpRun R T} {op : CeilingOp R T} {Q : CeilingObj R Nat → List T}
  {cur : T} {r : R}

/-- A thread in no call is in no queue. -/
theorem idle (h : LocalQueues c x Q) (hidle : x.pc cur = .idle) (j : CeilingObj R Nat) :
    cur ∉ Q j := fun hj => by
  cases j with
  | sem r => exact absurd (((h.blocked r cur).mp hj).symm.trans hidle) (by simp)
  | wait k =>
      obtain ⟨r, hr⟩ := h.linked k cur hj
      exact absurd (hr.symm.trans hidle) (by simp)

/-- A thread that was idle returns at once; the queues stay. -/
theorem ret (h : LocalQueues c x Q) (hidle : x.pc cur = .idle) {call : CeilingCall}
    {e : KernelError} {s' : CeilingState R Nat T} (hframe : MpcpFrame r cur x.st s')
    (hlinks : s'.ipc.links = x.st.ipc.links)
    (hasleep : ∀ t q, x.pc t = .wait q → s'.Asleep t)
    (hused : Q (.wait c) ≠ [] → ∃ q, s'.owner q ≠ none) :
    LocalQueues c (x.ret call cur r e s') Q := by
  have hpc : ∀ t pc, pc ≠ .idle → ((x.ret call cur r e s').pc t = pc ↔ x.pc t = pc) :=
    fun t pc hne => by
      rw [mpcpRet_pc]
      by_cases ht : t = cur
      · rw [if_pos ht, ht, hidle]
      · rw [if_neg ht]
  constructor
  case toQueues => exact h.toQueues.congr hlinks
  case type =>
    intro q
    exact (hframe.fixed_all q).1.trans (h.type q)
  case cpu =>
    intro t
    exact (hframe.cpu t).trans (h.cpu t)
  case linked =>
    intro k t ht
    obtain ⟨q, hq⟩ := h.linked k t ht
    exact ⟨q, (hpc t _ (by simp)).mpr hq⟩
  case blocked =>
    intro q t
    rw [hpc t _ (by simp)]
    exact h.blocked q t
  case waiting =>
    intro t q ht
    have hq := (hpc t _ (by simp)).mp ht
    exact ⟨(h.waiting t q hq).1, hasleep t q hq⟩
  case used => exact hused

/-- The caller enters the wait queue of an object, asleep. -/
theorem enter (h : LocalQueues c x Q) (hidle : x.pc cur = .idle) (y : IpcState (CeilingObj R Nat) T)
    {i : CeilingObj R Nat} {Q' : CeilingObj R Nat → List T}
    (hQ' : Q' = Function.update Q i (y.enqueue cur (Q i))) (hqueues : x'.st.ipc.Queues Q')
    (hframe : MpcpFrame r cur x.st x'.st) (hi : i = .wait c ∧ x'.pc cur = .wait r ∨
      i = .sem r ∧ x'.pc cur = .sem r) (hpc : ∀ t, t ≠ cur → x'.pc t = x.pc t)
    (hself : x'.st.Asleep cur) (hasleep : ∀ t q, x.pc t = .wait q → x'.st.Asleep t)
    (hused : Q' (.wait c) ≠ [] → ∃ q, x'.st.owner q ≠ none) : LocalQueues c x' Q' := by
  have hmem : ∀ t j, t ∈ Q' j ↔ t = cur ∧ j = i ∨ t ∈ Q j := fun t j => by
    rw [hQ']
    by_cases hj : j = i
    · rw [hj, Function.update_self, mem_enqueue]
      simp
    · rw [Function.update_of_ne hj]
      simp [hj]
  have hne : ∀ t j, t ∈ Q j → t ≠ cur := fun t j ht he => h.idle hidle j (he ▸ ht)
  constructor
  case toQueues => exact hqueues
  case type =>
    intro q
    exact (hframe.fixed_all q).1.trans (h.type q)
  case cpu =>
    intro t
    exact (hframe.cpu t).trans (h.cpu t)
  case linked =>
    intro k t ht
    rcases (hmem t _).mp ht with ⟨rfl, hk⟩ | ht
    · rcases hi with ⟨-, hwait⟩ | ⟨hsem, -⟩
      · exact ⟨r, hwait⟩
      · exact absurd (hk.trans hsem) (by simp)
    · rw [hpc t (hne t _ ht)]
      exact h.linked k t ht
  case blocked =>
    intro q t
    rw [hmem]
    by_cases ht : t = cur
    · rw [ht]
      rcases hi with ⟨hwait, hpc'⟩ | ⟨hsem, hpc'⟩
      · rw [hwait, hpc']
        simp [h.idle hidle]
      · rw [hsem, hpc']
        simp [h.idle hidle, eq_comm]
    · rw [hpc t ht, ← h.blocked q t]
      simp [ht]
  case waiting =>
    intro t q ht
    by_cases htc : t = cur
    · rw [htc] at ht ⊢
      rcases hi with ⟨hwait, -⟩ | ⟨-, hsem⟩
      · exact ⟨(hmem _ _).mpr (Or.inl ⟨rfl, hwait.symm⟩), hself⟩
      · exact absurd (ht.symm.trans hsem) (by simp)
    · rw [hpc t htc] at ht
      exact ⟨(hmem _ _).mpr (Or.inr (h.waiting t q ht).1), hasleep t q ht⟩
  case used => exact hused

/-- The stretch of a pend that passes the test. -/
theorem pendEnds (h : LocalQueues c x Q) (hidle : x.pc cur = .idle)
    (hready : x.st.isReady cur = true) {res : CeilingResult} {s' : CeilingState R Nat T}
    (hframe : MpcpFrame r cur x.st s') (hends : PendEnds fuel cur r x.st res s') :
    ∃ Q', LocalQueues c (x.pended cur r (res, s')) Q' := by
  have hused : Q (.wait c) ≠ [] → ∃ q, s'.owner q ≠ none := fun hne => by
    obtain ⟨q, hq⟩ := h.used hne
    exact ⟨q, hends.1 q hq⟩
  rcases hends.2 with ⟨⟨e, rfl⟩, hlinks, hsched⟩ | ⟨rfl, y, hlinks, hsched, hadd⟩
  · refine ⟨Q, h.ret hidle hframe hlinks (fun t q ht => ?_) hused⟩
    have hasleep := (h.waiting t q ht).2
    unfold CeilingState.Asleep CeilingState.isReady CeilingState.isSuspended at hasleep ⊢
    rwa [hsched]
  · have hy : y.Queues Q := h.toQueues.congr hlinks
    have hsched' : s'.ipc.sched = (x.st.suspendSelf cur).ipc.sched := by
      obtain ⟨links, -, hipc⟩ := Option.map_eq_some_iff.mp hadd
      rw [← hipc]
      exact hsched
    have hthread : ∀ t, (x.st.suspendSelf cur).Asleep t → s'.Asleep t := fun t ht => by
      unfold CeilingState.Asleep CeilingState.isReady CeilingState.isSuspended at ht ⊢
      rwa [hsched']
    have hframe' : MpcpFrame r cur x.st (x.pended cur r (.blocked, s')).st := by
      rw [pended_st]
      exact hframe
    refine ⟨_, h.enter hidle y rfl ?_ hframe' (Or.inr ⟨rfl, ?_⟩) (fun t ht => ?_) ?_
      (fun t q ht => ?_) fun hne => ?_⟩
    · rw [pended_st]
      exact hy.add (h.idle hidle) hadd
    · rw [pended_pc, if_pos rfl]
    · rw [pended_pc, if_neg ht]
    · rw [pended_st]
      exact hthread cur (asleep_self hready)
    · rw [pended_st]
      exact hthread t ((h.waiting t q ht).2.suspendSelf hready)
    · rw [pended_st]
      rw [Function.update_of_ne (by simp)] at hne
      exact hused hne

/-- A pend that fails the test. -/
theorem queued (h : LocalQueues c x Q) (hidle : x.pc cur = .idle)
    (hready : x.st.isReady cur = true) {s' : CeilingState R Nat T}
    (hframe : MpcpFrame r cur x.st s') (hqueued : MpcpQueued fuel cur r x.st s') :
    ∃ Q', LocalQueues c (x.pended cur r (.queued, s')) Q' := by
  have hsame := hqueued.sameRes
  obtain ⟨last, t, s₁, -, ht, hadd, hs'⟩ := hqueued.added
  rw [h.cpu cur] at hadd
  have hboost : (x.st.changePrio t (x.st.prio cur)).ipc.Queues Q := h.toQueues.congr rfl
  obtain ⟨hqueues, hsched⟩ := waitAdd_queues hboost (h.idle hidle) hadd
  have hthread : ∀ u, (x.st.changePrio t (x.st.prio cur)).isReady u = s₁.isReady u ∧
      ((x.st.changePrio t (x.st.prio cur)).Asleep u → s₁.Asleep u) := fun u => by
    unfold CeilingState.Asleep CeilingState.isReady CeilingState.isSuspended
    rw [hsched]
    exact ⟨rfl, id⟩
  have hready₁ : s₁.isReady cur = true := by
    rw [← (hthread cur).1, changePrio_isReady, hready]
  have hframe' : MpcpFrame r cur x.st (x.pended cur r (.queued, s')).st := by
    rw [pended_st]
    exact hframe
  refine ⟨_, h.enter hidle (x.st.changePrio t (x.st.prio cur)).ipc rfl ?_ hframe'
    (Or.inl ⟨rfl, ?_⟩) (fun u hu => ?_) ?_ (fun u q hu => ?_) fun _ => ⟨last, ?_⟩⟩
  · rw [pended_st, hs']
    exact hqueues.congr rfl
  · rw [pended_pc, if_pos rfl]
  · rw [pended_pc, if_neg hu]
  · rw [pended_st, hs']
    exact asleep_self hready₁
  · rw [pended_st, hs']
    exact ((hthread u).2 ((h.waiting u q hu).2.changePrio t _)).suspendSelf hready₁
  · rw [pended_st, hsame.owner last, ht]
    simp

/-- What a post by the owner does to the threads and the queues. -/
theorem posted (h : LocalQueues c x Q) (howner : x.st.owner r = some cur) {e : KernelError}
    {s' : CeilingState R Nat T} (hpost : acoralMpcpPost cur r x.st = some (e, s')) :
    s'.ipc.links = x.st.ipc.links ∧ ∃ s₁ s₂ : CeilingState R Nat T, s₁.ipc = x.st.ipc ∧
      mpcpWake c s₁ = some s₂ ∧ ∀ u, s₂.isReady u = true → s'.isReady u = true := by
  unfold acoralMpcpPost at hpost
  rw [if_neg (not_not.mpr howner), h.type r] at hpost
  obtain ⟨s₁, hpop, hpost⟩ := Option.bind_eq_some_iff.mp hpost
  obtain ⟨s₂, hwake, hpost⟩ := Option.bind_eq_some_iff.mp hpost
  rw [h.cpu cur] at hwake
  have hipc := (SameButStack.pop hpop).ipc
  have hlinks₂ : s₂.ipc.links = s₁.ipc.links := by
    obtain ⟨v, -, hv⟩ := Option.map_eq_some_iff.mp hwake
    cases v <;> (obtain rfl := hv; rfl)
  have hrestore : (mpcpRestore cur r s₂).ipc.links = s₂.ipc.links ∧
      ∀ u, (mpcpRestore cur r s₂).isReady u = s₂.isReady u := by
    unfold mpcpRestore
    simp only
    split
    · exact ⟨rfl, fun u => changePrio_isReady s₂ cur u _⟩
    · exact ⟨rfl, fun _ => rfl⟩
  obtain ⟨-, hlinks, hsched⟩ := semPost_cases hpost
  refine ⟨?_, s₁, s₂, hipc, hwake, fun u hu => ?_⟩
  · rw [hlinks, hrestore.1, hlinks₂, hipc]
  · rw [← hrestore.2 u] at hu
    rcases hsched with hsched | ⟨t, -, hsched⟩
    · unfold CeilingState.isReady at hu ⊢
      rwa [hsched]
    · have hrdy := isReady_rdyThread hu t
      unfold CeilingState.isReady at hrdy ⊢
      rwa [hsched]

/-- The thread that blocked in a semaphore goes on. -/
theorem resume (h : LocalQueues c x Q) (hpc : x.pc cur = .sem r) {e : KernelError}
    {ipc : IpcState (CeilingObj R Nat) T}
    (hresume : acoralSemPendResume cur x.st.ipc = some (e, ipc)) :
    ∃ Q', LocalQueues c (x.ret .pend cur r e { x.st with ipc := ipc }) Q' := by
  have hframe : MpcpFrame r cur x.st { x.st with ipc := ipc } := MpcpFrame.semPendResume hresume
  have hin : cur ∈ Q (.sem r) := (h.blocked r cur).mpr hpc
  obtain ⟨s₁, hdel, heq⟩ := Option.map_eq_some_iff.mp hresume
  obtain ⟨-, rfl⟩ := Prod.mk.inj heq
  have hqueues := h.toQueues.del hin hdel
  obtain ⟨hsched, hobj⟩ : s₁.sched = x.st.ipc.sched ∧ s₁.ipc = x.st.ipc.ipc := by
    obtain ⟨links, -, rfl⟩ := Option.map_eq_some_iff.mp hdel
    exact ⟨rfl, rfl⟩
  have hret := fun t => mpcpRet_pc x cur t r .pend e { x.st with ipc := s₁ }
  have hwait : ∀ k, Function.update Q (.sem r) ((Q (.sem r)).erase cur) (.wait k) = Q (.wait k) :=
    fun k => Function.update_of_ne (by simp) _ _
  refine ⟨Function.update Q (.sem r) ((Q (.sem r)).erase cur), ?_⟩
  constructor
  case toQueues => exact hqueues
  case type =>
    intro q
    exact (hframe.fixed_all q).1.trans (h.type q)
  case cpu =>
    intro t
    exact (hframe.cpu t).trans (h.cpu t)
  case linked =>
    intro k t ht
    rw [hwait] at ht
    obtain ⟨q, hq⟩ := h.linked k t ht
    refine ⟨q, (hret t).trans ((if_neg fun he => ?_).trans hq)⟩
    rw [he, hpc] at hq
    exact absurd hq (by simp)
  case blocked =>
    intro q t
    rw [hret t]
    by_cases ht : t = cur
    · rw [if_pos ht, ht]
      by_cases hq : q = r
      · rw [hq, Function.update_self, (h.waits (.sem r)).nodup.mem_erase_iff]
        simp
      · rw [Function.update_of_ne (by simp [hq]), h.blocked q cur, hpc]
        simp [Ne.symm hq]
    · rw [if_neg ht, ← h.blocked q t]
      by_cases hq : q = r
      · rw [hq, Function.update_self, List.mem_erase_of_ne ht]
      · rw [Function.update_of_ne (by simp [hq])]
  case waiting =>
    intro t q ht
    rw [hret t] at ht
    split at ht
    · exact absurd ht (by simp)
    · obtain ⟨hold, hasleep⟩ := h.waiting t q ht
      rw [hwait]
      refine ⟨hold, ?_⟩
      unfold CeilingState.Asleep CeilingState.isReady CeilingState.isSuspended at hasleep ⊢
      rw [← hsched] at hasleep
      exact hasleep
  case used =>
    intro hne
    rw [hwait] at hne
    obtain ⟨q, hq⟩ := h.used hne
    refine ⟨q, ?_⟩
    unfold CeilingState.owner at hq ⊢
    rw [← hobj] at hq
    exact hq

/-- A step in which the owner's post finds the wait queue empty. -/
theorem step (h : LocalQueues c x Q) (hguard : postsAlone x op = true)
    (hstep : mpcpStep fuel x op = some x') : ∃ Q', LocalQueues c x' Q' := by
  cases op with
  | call call cur r =>
      obtain ⟨⟨hready, hidle⟩, hstep⟩ := Option.ite_none_right_eq_some.mp hstep
      cases call with
      | pend =>
          obtain ⟨-, hstep⟩ := Option.ite_none_right_eq_some.mp hstep
          obtain ⟨⟨res, s'⟩, hpend, rfl⟩ := Option.map_eq_some_iff.mp hstep
          have hframe := MpcpFrame.acoralMpcpPend hpend
          rcases acoralMpcpPend_local (h.type r) hpend with
            ⟨-, rfl, rfl⟩ | ⟨rfl, hqueued⟩ | ⟨-, -, hlocal⟩
          · exact ⟨Q, h.ret hidle hframe rfl (fun t q ht => (h.waiting t q ht).2) h.used⟩
          · exact h.queued hidle hready hframe hqueued
          · exact h.pendEnds hidle hready hframe (mpcpLocal_ends hlocal)
      | post =>
          obtain ⟨-, hstep⟩ := Option.ite_none_right_eq_some.mp hstep
          obtain ⟨⟨e, s'⟩, hpost, rfl⟩ := Option.map_eq_some_iff.mp hstep
          have hframe := MpcpFrame.acoralMpcpPost hpost
          by_cases howner : x.st.owner r = some cur
          · have hempty : Q (.wait c) = [] := by
              have hhead := (of_decide_eq_true hguard).resolve_left (not_not.mpr howner)
              rw [h.cpu cur] at hhead
              have hhigh := (h.waits (.wait c)).high.symm.trans hhead
              exact List.head?_eq_none_iff.mp (Option.some.inj hhigh)
            refine ⟨Q, h.ret hidle hframe (h.posted howner hpost).1 (fun t q ht => ?_)
              fun hne => absurd hempty hne⟩
            have hin := (h.waiting t q ht).1
            rw [hempty] at hin
            exact absurd hin List.not_mem_nil
          · rw [acoralMpcpPost_error howner] at hpost
            obtain ⟨rfl, rfl⟩ := Prod.mk.inj (Option.some.inj hpost)
            exact ⟨Q, h.ret hidle hframe rfl (fun t q ht => (h.waiting t q ht).2) h.used⟩
  | resume cur =>
      obtain ⟨hready, hstep⟩ := Option.ite_none_right_eq_some.mp hstep
      unfold mpcpResume at hstep
      cases hpc : x.pc cur with
      | idle =>
          rw [hpc] at hstep
          exact absurd hstep (by simp)
      | wait r => exact absurd ((h.waiting cur r hpc).2.1.symm.trans hready) (by simp)
      | sem r =>
          rw [hpc] at hstep
          obtain ⟨⟨e, ipc⟩, hresume, rfl⟩ := Option.map_eq_some_iff.mp hstep
          have hne : (x.st.res r).type ≠ .GLOBAL := by
            rw [h.type r]
            decide
          rw [if_neg hne]
          exact h.resume hpc hresume

/-- A post that finds a waiter leaves a READY thread in the wait queue. -/
theorem stale (h : LocalQueues c x Q) (hguard : postsAlone x op ≠ true)
    (hstep : mpcpStep fuel x op = some x') :
    ∃ t, acoralIpcHighThread x'.st.ipc (.wait c) = some (some t) ∧ x'.st.isReady t = true := by
  cases op with
  | resume cur => exact absurd rfl hguard
  | call call cur r =>
      cases call with
      | pend => exact absurd rfl hguard
      | post =>
          obtain ⟨-, hstep⟩ := Option.ite_none_right_eq_some.mp hstep
          obtain ⟨-, hstep⟩ := Option.ite_none_right_eq_some.mp hstep
          obtain ⟨⟨e, s'⟩, hpost, rfl⟩ := Option.map_eq_some_iff.mp hstep
          have hor : ¬ (x.st.owner r ≠ some cur ∨ x.st.waitHead (x.st.cpu cur) = some none) :=
            fun hor => hguard (decide_eq_true hor)
          obtain ⟨howner, hhead⟩ := not_or.mp hor
          obtain ⟨hlinks, s₁, s₂, hipc, hwake, hready⟩ := h.posted (not_not.mp howner) hpost
          rw [h.cpu cur] at hhead
          obtain ⟨v, hv, hwake⟩ := Option.map_eq_some_iff.mp hwake
          have hv' : x.st.waitHead c = some v := by
            unfold CeilingState.waitHead at hv ⊢
            rwa [hipc] at hv
          cases v with
          | none => exact absurd hv' hhead
          | some t =>
              refine ⟨t, ?_, hready t ?_⟩
              · have hhigh : acoralIpcHighThread s'.ipc (.wait c) = x.st.waitHead c := by
                  unfold CeilingState.waitHead acoralIpcHighThread
                  rw [hlinks]
                exact hhigh.trans hv'
              · have hmem : t ∈ Q (.wait c) := by
                  have hhigh := (h.waits (.wait c)).high.symm.trans hv'
                  exact List.mem_of_mem_head? (Option.some.inj hhigh)
                obtain ⟨q, hq⟩ := h.linked c t hmem
                have hasleep : s₁.Asleep t := by
                  have := (h.waiting t q hq).2
                  unfold CeilingState.Asleep CeilingState.isReady CeilingState.isSuspended at this ⊢
                  rwa [hipc]
                rw [← hwake]
                exact hasleep.rdyThread_self

/-- Before the first step the queues are empty. -/
theorem start (sched : Sched T) (pendingValue : T → Int) (preemptType : T → PreemptType)
    (data : T → Option ThreadData) (ceiling : R → BitVec 8)
    (hcpu : ∀ t, (sched.thread t).cpu = c) :
    LocalQueues c (.start (.start sched pendingValue preemptType data
      fun r => (.LOCAL, c, (ceiling r).toNat))) fun _ => [] where
  waits _ := Lib.Links.isRing_nil rfl rfl
  apart _ _ _ ht := absurd ht List.not_mem_nil
  type _ := rfl
  cpu := hcpu
  linked _ _ ht := absurd ht List.not_mem_nil
  blocked _ _ := by simp [MpcpRun.start]
  waiting _ _ ht := absurd ht (by simp [MpcpRun.start])
  used hne := absurd rfl hne

end LocalQueues

/-- Every run of MPCP on the local resources of the CPU `c`, by any of its
threads, in which no post is made while a thread is in the wait queue. In
every state of it the queue holds exactly the threads that wait behind their
`acoral_suspend_self`, all of them suspended, and there is none unless a
resource is in use. A further step leaves only suspended threads in the queue
exactly if it is no post that finds a waiter. -/
theorem mpcp_waitQueue (fuel : Nat) (sched : Sched T) (pendingValue : T → Int)
    (preemptType : T → PreemptType) (data : T → Option ThreadData) (c : Nat)
    (ceiling : R → BitVec 8) (hcpu : ∀ t, (sched.thread t).cpu = c) (ops : List (CeilingOp R T))
    (x : MpcpRun R T)
    (hrun : run (guarded postsAlone (mpcpStep fuel))
      (.start (.start sched pendingValue preemptType data fun r => (.LOCAL, c, (ceiling r).toNat)))
      ops = some x) :
    (∃ waiters, x.st.ipc.Waits (.wait c) waiters ∧ (∀ t, t ∈ waiters ↔ ∃ r, x.pc t = .wait r) ∧
      (∀ t ∈ waiters, x.st.isReady t = false) ∧ (waiters ≠ [] → ∃ r, x.st.owner r ≠ none)) ∧
    ∀ op x', mpcpStep fuel x op = some x' →
      ((∃ waiters, x'.st.ipc.Waits (.wait c) waiters ∧ ∀ t ∈ waiters, x'.st.isReady t = false) ↔
        postsAlone x op = true) := by
  have hwaiters : ∀ {y : MpcpRun R T} {Q}, LocalQueues c y Q → ∀ t ∈ Q (.wait c),
      y.st.isReady t = false := fun hinv t ht => by
    obtain ⟨r, hr⟩ := hinv.linked c t ht
    exact (hinv.waiting t r hr).2.1
  obtain ⟨Q, h⟩ := guarded_induct (P := fun x => ∃ Q, LocalQueues c x Q)
    (fun _ _ _ ⟨_, hinv⟩ hguard hstep => hinv.step hguard hstep)
    ⟨_, .start sched pendingValue preemptType data ceiling hcpu⟩ hrun
  refine ⟨⟨Q (.wait c), h.waits _, fun t => ⟨h.linked c t, fun ⟨r, hr⟩ => (h.waiting t r hr).1⟩,
    hwaiters h, h.used⟩, fun op x' hstep => ⟨?_, fun hguard => ?_⟩⟩
  · rintro ⟨waiters, hwaits, hasleep⟩
    by_contra hguard
    obtain ⟨t, hhigh, hready⟩ := h.stale hguard hstep
    have hmem : t ∈ waiters :=
      List.mem_of_mem_head? (Option.some.inj (hwaits.high.symm.trans hhigh))
    exact absurd ((hasleep t hmem).symm.trans hready) (by simp)
  · obtain ⟨Q', h'⟩ := h.step hguard hstep
    exact ⟨Q' (.wait c), h'.waits _, hwaiters h'⟩

/-- Three threads of CPU 0, of the priorities 3, 4 and 5, and three of its
resources, of ceiling 3. -/
def threeLocals : CeilingState (Fin 3) Nat (Fin 3) :=
  .start (readyThreads (fun t => t.val + 3) fun _ => 0) (fun t => t.val + 3)
    (fun _ => .ACORAL_PREEMPT_LOCAL) (fun _ => none) fun _ => (.LOCAL, 0, (3#8).toNat)

/-- Two threads wait for the first one. -/
theorem mpcp_waitQueue_two :
    ∃ x, run (guarded postsAlone (mpcpStep 4)) (.start threeLocals)
        [.call .pend 0 0, .call .pend 1 1, .call .pend 2 2] = some x ∧
      ∃ waiters, x.st.ipc.Waits (.wait 0) waiters ∧ (∀ t, t ∈ waiters ↔ ∃ r, x.pc t = .wait r) ∧
        (∀ t ∈ waiters, x.st.isReady t = false) ∧
        (waiters ≠ [] → ∃ r, x.st.owner r ≠ none) := by
  have hsome : (run (guarded postsAlone (mpcpStep 4)) (.start threeLocals)
      [.call .pend 0 0, .call .pend 1 1, .call .pend 2 2]).isSome = true := by decide
  obtain ⟨x, hx⟩ := Option.isSome_iff_exists.mp hsome
  exact ⟨x, hx, (mpcp_waitQueue 4 _ _ _ _ 0 (fun _ => 3) (by decide) _ x hx).1⟩

/-- The first thread's post readies the second one, which goes on, returns and
is still the head of the queue. Its own post readies nobody: the third thread
sleeps, and no resource is in use. -/
theorem mpcp_post_stale :
    (run (mpcpStep 4) (.start threeLocals)
        [.call .pend 0 0, .call .pend 1 1, .call .pend 2 2, .call .post 0 0, .resume 1]).map
      (fun x => (x.pc 1, x.st.isReady 1, x.st.waitHead 0)) =
        some (.idle, true, some (some 1)) ∧
    (run (mpcpStep 4) (.start threeLocals)
        [.call .pend 0 0, .call .pend 1 1, .call .pend 2 2, .call .post 0 0, .resume 1,
         .call .post 1 1]).map
      (fun x => (x.pc 2, x.st.isReady 2, (List.finRange 3).map x.st.owner)) =
        some (.wait 2, false, [none, none, none]) := by
  decide

end ACoral
