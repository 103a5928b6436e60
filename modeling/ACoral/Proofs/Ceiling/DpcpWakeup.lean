import ACoral.Proofs.Ceiling.DpcpCore

/-!
# `ACoral.Proofs.Ceiling.DpcpWakeup`: the wake-ups of DPCP

A thread that fails the ceiling test enters the wait queue, leaves its
critical section and only then suspends itself. A post in between takes it
out of the queue and readies it, which does nothing to a READY thread.

* `dpcp_wakeup`: as long as the posts find only suspended threads at the head
  of the queue (`postsToSleepers`), every suspended thread is in the wait queue
  of its resource, and there is another thread by which it will be woken: one
  that uses a resource of the system, or one that was woken before it.
* `dpcp_post_lost`: with a post in the window, the thread is suspended, in no
  queue, while nothing is held.
-/

set_option autoImplicit false
set_option linter.unusedSectionVars false

namespace ACoral

open CeilingState
open Lib (run guarded guarded_induct)

variable {R T : Type} [DecidableEq R] [DecidableEq T]

/-- A post that gets to the wait queue finds no READY thread at its head. -/
def postsToSleepers (x : DpcpRun R T) : CeilingOp R T → Bool
  | .call .post cur r =>
      match x.st.waitHead (x.st.dpcpSystem r) with
      | some (some t) =>
          decide (x.st.owner r ≠ some cur ∨
            (x.st.res r).type = .LOCAL ∧ (x.st.res r).cpu ≠ x.st.cpu cur ∨
            x.st.isReady t = false)
      | _ => true
  | _ => true

/-- Moreover, a thread that passes the test finds its resource free. -/
def wakeGuard (x : DpcpRun R T) (op : CeilingOp R T) : Bool :=
  passesFree x op && postsToSleepers x op

/-! ### The queues -/

/-- The wait queues hold the threads that have not been woken. -/
structure DpcpQueues (x : DpcpRun R T) (sys : R → DpcpSystem)
    (Q : CeilingObj R DpcpSystem → List T) : Prop extends x.st.ipc.Queues Q where
  sem : ∀ r, Q (.sem r) = []
  linked : ∀ k, ∀ t ∈ Q (.wait k), ∃ r, sys r = k ∧ (x.pc t = .suspend r ∨ x.pc t = .wait r)
  window : ∀ t r, x.pc t = .suspend r → t ∈ Q (.wait (sys r)) ∧ x.st.isReady t = true
  waiting : ∀ t r, x.pc t = .wait r →
    t ∈ Q (.wait (sys r)) ∧ x.st.Asleep t ∨ t ∉ Q (.wait (sys r)) ∧ x.st.isReady t = true

/-- Somebody will post on the system: a user of one of its resources, or a
thread that was woken and makes the test again. -/
def WakeOwed (x : DpcpRun R T) (sys : R → DpcpSystem) (k : DpcpSystem) : Prop :=
  (∃ q, sys q = k ∧ x.st.owner q ≠ none) ∨
    ∃ u q, sys q = k ∧ x.pc u = .wait q ∧ x.st.isReady u = true

namespace DpcpPosted

variable {x : DpcpRun R T} {cur : T} {r : R} {c : Option Nat} {s' : CeilingState R DpcpSystem T}

/-- Beside the resource, a post readies the head of the wait queue. -/
theorem woken (h : DpcpPosted cur r x.st c s') : ∃ s₁ s₂, s₁.ipc = x.st.ipc ∧
    dpcpWake (x.st.dpcpSystem r) s₁ = some s₂ ∧ s'.ipc.links = s₂.ipc.links ∧
    s'.ipc.sched = s₂.ipc.sched := by
  obtain ⟨s₀, s₁, s₂, hpop, hwake, hcases⟩ := h.posted
  have hipc : s₁.ipc = s₀.ipc := (SameButStack.pop hpop).ipc
  rcases hcases with ⟨-, -, rfl, -, rfl⟩ | ⟨-, rfl, ⟨p, -, -, -, rfl⟩ | ⟨-, -, rfl⟩⟩
  · exact ⟨s₁, s₂, hipc, hwake, rfl, rfl⟩
  · exact ⟨s₁, s₂, hipc.trans (switchPreempt_ipc ..), hwake, rfl, rfl⟩
  · exact ⟨s₁, s₂, hipc.trans (switchPreempt_ipc ..), hwake, rfl, rfl⟩

/-- The head of the wait queue that it finds is not READY. -/
theorem sleeper (h : DpcpPosted cur r x.st c s')
    (hguard : postsToSleepers x (.call .post cur r) = true) {t : T}
    (hhead : x.st.waitHead (x.st.dpcpSystem r) = some (some t)) : x.st.isReady t = false := by
  simp only [postsToSleepers, hhead] at hguard
  rcases of_decide_eq_true hguard with howner | ⟨hlocal, hcpu⟩ | hready
  · exact absurd h.owner howner
  · obtain ⟨-, -, -, -, -, ⟨-, he, -⟩ | ⟨hglobal, -⟩⟩ := h.posted
    · exact absurd he hcpu
    · exact absurd (hlocal.symm.trans hglobal) (by decide)
  · exact hready

end DpcpPosted

namespace DpcpQueues

variable {fuel : Nat} {x x' : DpcpRun R T} {sys : R → DpcpSystem}
  {Q : CeilingObj R DpcpSystem → List T} {cur : T} {r : R}

/-- A thread that is in no queue. -/
theorem free (h : DpcpQueues x sys Q) (hpc : ∀ q, x.pc cur ≠ .suspend q)
    (hwait : ∀ q, x.pc cur = .wait q → x.st.isReady cur = true) (j : CeilingObj R DpcpSystem) :
    cur ∉ Q j := fun hj => by
  cases j with
  | sem q =>
      rw [h.sem q] at hj
      exact List.not_mem_nil hj
  | wait k =>
      obtain ⟨q, hk, hq | hq⟩ := h.linked k cur hj
      · exact hpc q hq
      · rcases h.waiting cur q hq with ⟨-, hasleep⟩ | ⟨hnot, -⟩
        · exact absurd (hasleep.1.symm.trans (hwait q hq)) (by simp)
        · exact hnot (hk ▸ hj)

/-- A thread that is in no queue goes on to a place outside of the loop. -/
theorem leave (h : DpcpQueues x sys Q) (hfree : ∀ j, cur ∉ Q j)
    (hlinks : x'.st.ipc.links = x.st.ipc.links) (hpc : ∀ t, t ≠ cur → x'.pc t = x.pc t)
    (hcur : ∀ q, x'.pc cur ≠ .suspend q ∧ x'.pc cur ≠ .wait q)
    (hready : ∀ t, t ≠ cur → x'.st.isReady t = x.st.isReady t)
    (hasleep : ∀ t, t ≠ cur → x.st.Asleep t → x'.st.Asleep t) : DpcpQueues x' sys Q := by
  constructor
  case toQueues => exact h.toQueues.congr hlinks
  case sem => exact h.sem
  case linked =>
    intro k t ht
    rw [hpc t fun he => hfree _ (he ▸ ht)]
    exact h.linked k t ht
  case window =>
    intro t q ht
    have hne : t ≠ cur := fun he => (hcur q).1 (he ▸ ht)
    rw [hpc t hne] at ht
    rw [hready t hne]
    exact h.window t q ht
  case waiting =>
    intro t q ht
    have hne : t ≠ cur := fun he => (hcur q).2 (he ▸ ht)
    rw [hpc t hne] at ht
    rw [hready t hne]
    exact (h.waiting t q ht).imp_left (And.imp_right (hasleep t hne))

/-- The caller of a round enters the wait queue. -/
theorem enter (h : DpcpQueues x sys Q) (hsys : x.st.dpcpSystem r = sys r)
    (hready : x.st.isReady cur = true) (hpc : ∀ q, x.pc cur ≠ .suspend q)
    {s s' : CeilingState R DpcpSystem T} (hipc : s.ipc = x.st.ipc) (hres : s.res = x.st.res)
    (hqueued : DpcpQueued fuel cur r s s') :
    ∃ Q', DpcpQueues (x.goto cur (.suspend r) s') sys Q' ∧
      (∀ k, k ≠ sys r → Q' (.wait k) = Q (.wait k)) ∧ ∀ t, s'.isReady t = x.st.isReady t := by
  have hfree := h.free hpc fun _ _ => hready
  have hs : s.dpcpSystem r = sys r := by
    rw [← hsys]
    unfold CeilingState.dpcpSystem
    rw [hres]
  obtain ⟨s₁, hadd, hs₁⟩ := hqueued.added
  rw [hs] at hadd
  have hthread : s₁.ipc.links = x.st.ipc.links ∧ (∀ t, s₁.isReady t = x.st.isReady t) ∧
      ∀ t, x.st.Asleep t → s₁.Asleep t := by
    rcases hs₁ with ⟨-, rfl⟩ | ⟨-, last, t, -, -, rfl⟩
    · rw [hipc]
      refine ⟨rfl, fun t => ?_, fun t ht => ?_⟩
      · unfold CeilingState.isReady
        rw [hipc]
      · unfold CeilingState.Asleep CeilingState.isReady CeilingState.isSuspended at ht ⊢
        rwa [hipc]
    · have hsleep : ∀ u, x.st.Asleep u → s.Asleep u := fun u hu => by
        unfold CeilingState.Asleep CeilingState.isReady CeilingState.isSuspended at hu ⊢
        rwa [hipc]
      refine ⟨by rw [← hipc]; rfl, fun u => ?_, fun u hu => (hsleep u hu).changePrio t _⟩
      rw [changePrio_isReady]
      unfold CeilingState.isReady
      rw [hipc]
  obtain ⟨hqueues, hsched⟩ := waitAdd_queues (h.toQueues.congr hthread.1) hfree hadd
  have hready' : ∀ t, s'.isReady t = x.st.isReady t := fun t => by
    rw [← hthread.2.1 t]
    unfold CeilingState.isReady
    rw [hsched]
  have hasleep' : ∀ t, x.st.Asleep t → s'.Asleep t := fun t ht => by
    have := hthread.2.2 t ht
    unfold CeilingState.Asleep CeilingState.isReady CeilingState.isSuspended at this ⊢
    rwa [hsched]
  have hmem : ∀ t j, t ∈ Function.update Q (.wait (sys r)) (s₁.ipc.enqueue cur (Q (.wait (sys r)))) j ↔
      t = cur ∧ j = .wait (sys r) ∨ t ∈ Q j := fun t j => by
    by_cases hj : j = .wait (sys r)
    · rw [hj, Function.update_self, mem_enqueue]
      simp
    · rw [Function.update_of_ne hj]
      simp [hj]
  have hpc' : ∀ t, t ≠ cur → (x.goto cur (.suspend r) s').pc t = x.pc t := fun t ht => by
    rw [goto_pc, if_neg ht]
  have hself : (x.goto cur (.suspend r) s').pc cur = .suspend r := by
    rw [goto_pc, if_pos rfl]
  refine ⟨_, ⟨hqueues, fun q => ?_, fun k t ht => ?_, fun t q ht => ?_, fun t q ht => ?_⟩,
    fun k hk => Function.update_of_ne (by simpa using hk) _ _, hready'⟩
  · rw [Function.update_of_ne (by simp)]
    exact h.sem q
  · rcases (hmem t _).mp ht with ⟨rfl, hk⟩ | ht
    · exact ⟨r, (CeilingObj.wait.inj hk).symm, Or.inl hself⟩
    · rw [hpc' t fun he => hfree _ (he ▸ ht)]
      exact h.linked k t ht
  · show _ ∧ s'.isReady t = true
    rw [hready' t, hmem]
    by_cases htc : t = cur
    · rw [htc] at ht ⊢
      obtain rfl := DpcpPc.suspend.inj (hself.symm.trans ht)
      exact ⟨Or.inl ⟨rfl, rfl⟩, hready⟩
    · rw [hpc' t htc] at ht
      exact (h.window t q ht).imp_left Or.inr
  · show _ ∧ s'.Asleep t ∨ _ ∧ s'.isReady t = true
    rw [hready' t, hmem]
    have htc : t ≠ cur := fun he => by
      rw [he, hself] at ht
      exact absurd ht (by simp)
    rw [hpc' t htc] at ht
    rcases h.waiting t q ht with ⟨hin, hsleep⟩ | ⟨hout, hrdy⟩
    · exact Or.inl ⟨Or.inr hin, hasleep' t hsleep⟩
    · exact Or.inr ⟨fun hor => hor.elim (fun he => htc he.1) hout, hrdy⟩

/-- The caller suspends itself. -/
theorem suspend (h : DpcpQueues x sys Q) (hready : x.st.isReady cur = true)
    (hpc : x.pc cur = .suspend r) :
    DpcpQueues (x.goto cur (.wait r) (x.st.suspendSelf cur)) sys Q := by
  have hpc' : ∀ t, t ≠ cur → (x.goto cur (.wait r) (x.st.suspendSelf cur)).pc t = x.pc t :=
    fun t ht => by rw [goto_pc, if_neg ht]
  have hself : (x.goto cur (.wait r) (x.st.suspendSelf cur)).pc cur = .wait r := by
    rw [goto_pc, if_pos rfl]
  have hready' : ∀ t, t ≠ cur → (x.st.suspendSelf cur).isReady t = x.st.isReady t := fun t ht =>
    (CeilingState.suspendSelf_flags x.st cur t hready).1.trans (if_neg ht)
  refine ⟨h.toQueues.congr rfl, h.sem, fun k t ht => ?_, fun t q ht => ?_, fun t q ht => ?_⟩
  · obtain ⟨q, hk, hq⟩ := h.linked k t ht
    by_cases htc : t = cur
    · rw [htc] at hq ⊢
      rw [hself]
      rcases hq with hq | hq
      · exact ⟨q, hk, Or.inr (by rw [DpcpPc.suspend.inj (hpc.symm.trans hq)])⟩
      · exact absurd (hpc.symm.trans hq) (by simp)
    · rw [hpc' t htc]
      exact ⟨q, hk, hq⟩
  · have htc : t ≠ cur := fun he => by
      rw [he, hself] at ht
      exact absurd ht (by simp)
    rw [hpc' t htc] at ht
    exact (h.window t q ht).imp_right (hready' t htc).trans
  · by_cases htc : t = cur
    · rw [htc] at ht ⊢
      obtain rfl := DpcpPc.wait.inj (hself.symm.trans ht)
      exact Or.inl ⟨(h.window cur r hpc).1, asleep_self hready⟩
    · rw [hpc' t htc] at ht
      rcases h.waiting t q ht with ⟨hin, hsleep⟩ | ⟨hout, hrdy⟩
      · exact Or.inl ⟨hin, hsleep.suspendSelf hready⟩
      · exact Or.inr ⟨hout, (hready' t htc).trans hrdy⟩

/-- The post takes the head of the queue out of it and readies it. -/
theorem woken (h : DpcpQueues x sys Q) (hsys : x.st.dpcpSystem r = sys r)
    {c : Option Nat} {s' : CeilingState R DpcpSystem T} (hposted : DpcpPosted cur r x.st c s')
    (hguard : postsToSleepers x (.call .post cur r) = true) :
    ∃ Q', DpcpQueues { x with st := s' } sys Q' ∧ (∀ k, Q' (.wait k) ⊆ Q (.wait k)) ∧
      (∀ t, x.st.isReady t = true → s'.isReady t = true) ∧
      (Q (.wait (sys r)) = [] ∨ ∃ u q, sys q = sys r ∧ x.pc u = .wait q ∧ s'.isReady u = true) := by
  obtain ⟨s₁, s₂, hipc, hwake, hlinks, hsched⟩ := hposted.woken
  rw [hsys] at hwake
  have hready : ∀ t, s'.isReady t = s₂.isReady t := fun t => by
    unfold CeilingState.isReady
    rw [hsched]
  have hasleep : ∀ t, s₂.Asleep t → s'.Asleep t := fun t ht => by
    unfold CeilingState.Asleep CeilingState.isReady CeilingState.isSuspended at ht ⊢
    rwa [hsched]
  have hhigh : s₁.waitHead (sys r) = some (Q (.wait (sys r))).head? := by
    unfold CeilingState.waitHead
    rw [hipc]
    exact (h.waits _).high
  rcases dpcpWake_cases hwake with ⟨hnone, rfl⟩ | ⟨t, s₃, hsome, hdel, rfl⟩
  · have hempty : Q (.wait (sys r)) = [] :=
      List.head?_eq_none_iff.mp (Option.some.inj (hhigh.symm.trans hnone))
    have hready₁ : ∀ t, s'.isReady t = x.st.isReady t := fun t => by
      rw [hready t]
      unfold CeilingState.isReady
      rw [hipc]
    have hasleep₁ : ∀ t, x.st.Asleep t → s'.Asleep t := fun t ht => hasleep t <| by
      unfold CeilingState.Asleep CeilingState.isReady CeilingState.isSuspended at ht ⊢
      rwa [hipc]
    refine ⟨Q, ⟨h.toQueues.congr (hlinks.trans (by rw [hipc])), h.sem, h.linked, fun t q ht => ?_,
      fun t q ht => ?_⟩, fun k => List.Subset.refl _, fun t ht => (hready₁ t).trans ht, Or.inl hempty⟩
    · exact (h.window t q ht).imp_right (hready₁ t).trans
    · exact (h.waiting t q ht).imp (And.imp_right (hasleep₁ t)) (And.imp_right (hready₁ t).trans)
  · have hhead := Option.some.inj (hhigh.symm.trans hsome)
    have hmem : t ∈ Q (.wait (sys r)) := List.mem_of_mem_head? hhead
    have hnotReady : x.st.isReady t = false := hposted.sleeper hguard (by
      rw [hsys]
      unfold CeilingState.waitHead at hsome ⊢
      rwa [hipc] at hsome)
    -- the head is behind its `acoral_suspend_self`
    obtain ⟨q, hq, hpc⟩ := h.linked _ t hmem
    have hwait : x.pc t = .wait q := hpc.resolve_left fun hsus =>
      absurd (hnotReady.symm.trans (h.window t q hsus).2) (by simp)
    obtain ⟨hqueues, hsched₃⟩ := waitDel_queues (h.toQueues.congr (by rw [hipc])) hmem hdel
    have hready₃ : ∀ u, s₃.isReady u = x.st.isReady u := fun u => by
      unfold CeilingState.isReady
      rw [hsched₃, hipc]
    have hasleep₃ : ∀ u, x.st.Asleep u → s₃.Asleep u := fun u hu => by
      unfold CeilingState.Asleep CeilingState.isReady CeilingState.isSuspended at hu ⊢
      rwa [hsched₃, hipc]
    have hmono : ∀ u, x.st.isReady u = true → s'.isReady u = true := fun u hu =>
      (hready u).trans (isReady_rdyThread ((hready₃ u).trans hu) t)
    have hwoken : s'.isReady t = true := by
      rcases h.waiting t q hwait with ⟨-, hsleep⟩ | ⟨-, hrdy⟩
      · exact (hready t).trans (hasleep₃ t hsleep).rdyThread_self
      · exact absurd (hnotReady.symm.trans hrdy) (by simp)
    have hin : ∀ u k, u ∈ Function.update Q (.wait (sys r)) ((Q (.wait (sys r))).erase t) (.wait k) ↔
        u ∈ Q (.wait k) ∧ u ≠ t := fun u k => by
      by_cases hk : k = sys r
      · rw [hk, Function.update_self, (h.waits (.wait (sys r))).nodup.mem_erase_iff, and_comm]
      · rw [Function.update_of_ne (by simpa using hk)]
        refine ⟨fun hu => ⟨hu, fun he => hk ?_⟩, And.left⟩
        exact CeilingObj.wait.inj (h.apart _ _ t (he ▸ hu) hmem)
    refine ⟨_, ⟨hqueues.congr hlinks, fun p => ?_, fun k u hu => ?_, fun u p hu => ?_,
      fun u p hu => ?_⟩, fun k => (IpcState.Queues.erase_sublist Q _ _ t).subset, hmono,
      Or.inr ⟨t, q, hq, hwait, hwoken⟩⟩
    · rw [Function.update_of_ne (by simp)]
      exact h.sem p
    · exact h.linked k u ((hin u k).mp hu).1
    · obtain ⟨hmemu, hreadyu⟩ := h.window u p hu
      refine ⟨(hin u _).mpr ⟨hmemu, fun he => ?_⟩, hmono u hreadyu⟩
      rw [he] at hu
      exact absurd (hu.symm.trans hwait) (by simp)
    · by_cases hut : u = t
      · rw [hut]
        exact Or.inr ⟨fun hu => ((hin t _).mp hu).2 rfl, hwoken⟩
      · rcases h.waiting u p hu with ⟨hmemu, hsleep⟩ | ⟨hnot, hrdy⟩
        · exact Or.inl ⟨(hin u _).mpr ⟨hmemu, hut⟩, hasleep u ((hasleep₃ u hsleep).rdyThread hut)⟩
        · exact Or.inr ⟨fun hu => hnot ((hin u _).mp hu).1, hmono u hrdy⟩

end DpcpQueues

/-! ### The steps -/

section Keep

variable {x x' : DpcpRun R T} {sys : R → DpcpSystem} {k : DpcpSystem}

/-- What is owed stays owed when the resources of the system stay in use and
the caller was not woken there. -/
theorem WakeOwed.keep (howed : WakeOwed x sys k) (cur : T)
    (howner : ∀ q, sys q = k → x.st.owner q ≠ none → x'.st.owner q ≠ none)
    (hcur : ∀ q, sys q = k → x.pc cur ≠ .wait q) (hpc : ∀ t, t ≠ cur → x'.pc t = x.pc t)
    (hready : ∀ t, t ≠ cur → x.st.isReady t = true → x'.st.isReady t = true) :
    WakeOwed x' sys k := by
  rcases howed with ⟨q, hk, hq⟩ | ⟨u, q, hk, hu, hrdy⟩
  · exact Or.inl ⟨q, hk, howner q hk hq⟩
  · have hne : u ≠ cur := fun he => hcur q hk (he ▸ hu)
    exact Or.inr ⟨u, q, hk, (hpc u hne).trans hu, hready u hne hrdy⟩

end Keep

/-- The resources, the queues, and a wake-up for every thread in a queue. -/
structure DpcpWakes (x : DpcpRun R T) (sys : R → DpcpSystem) (S : DpcpSystem → List R)
    (Q : CeilingObj R DpcpSystem → List T) : Prop where
  core : DpcpCore x.st sys S
  queues : DpcpQueues x sys Q
  prio : ∀ t, x.st.prio t < ACORAL_MAX_PRIO_NUM
  owed : ∀ k, Q (.wait k) ≠ [] → WakeOwed x sys k

namespace DpcpWakes

variable {fuel : Nat} {x x' : DpcpRun R T} {op : CeilingOp R T} {sys : R → DpcpSystem}
  {S : DpcpSystem → List R} {Q : CeilingObj R DpcpSystem → List T} {cur : T} {r : R}

/-- Whoever fails the test fails it because of a resource in use. -/
theorem used (h : DpcpWakes x sys S Q) {k : DpcpSystem} (hfull : x.st.sysPrio k ≤ x.st.prio cur) :
    ∃ q, sys q = k ∧ x.st.owner q ≠ none := by
  cases hS : S k with
  | nil =>
      have hprio := h.core.prio k
      have hcur := h.prio cur
      rw [hS] at hprio
      rw [hprio] at hfull
      exact absurd hfull (Nat.not_le.mpr hcur)
  | cons q rest =>
      have hq : q ∈ S k := by simp [hS]
      have hhome := StackRings.home h.core.toStackRings k q hq
      refine ⟨q, hhome, (h.core.owned q).mp ?_⟩
      rw [hhome]
      exact hq

/-- A thread outside of the loop goes on, and no resource is given back. -/
theorem outside (h : DpcpWakes x sys S Q) (hcur : ∀ q, x.pc cur ≠ .suspend q ∧ x.pc cur ≠ .wait q)
    (hcur' : ∀ q, x'.pc cur ≠ .suspend q ∧ x'.pc cur ≠ .wait q)
    (hlinks : x'.st.ipc.links = x.st.ipc.links) (hpc : ∀ t, t ≠ cur → x'.pc t = x.pc t)
    (hready : ∀ t, t ≠ cur → x'.st.isReady t = x.st.isReady t)
    (hasleep : ∀ t, t ≠ cur → x.st.Asleep t → x'.st.Asleep t)
    (howner : ∀ q, x.st.owner q ≠ none → x'.st.owner q ≠ none) :
    DpcpQueues x' sys Q ∧ ∀ k, Q (.wait k) ≠ [] → WakeOwed x' sys k := by
  have hfree := h.queues.free (fun q => (hcur q).1) fun q hq => absurd hq (hcur q).2
  refine ⟨h.queues.leave hfree hlinks hpc hcur' hready hasleep, fun k hk => ?_⟩
  exact (h.owed k hk).keep cur (fun q _ => howner q) (fun q _ => (hcur q).2) hpc
    fun t ht hrdy => (hready t ht).trans hrdy

/-- A round that fails the test. -/
theorem queued (h : DpcpWakes x sys S Q) (hready : x.st.isReady cur = true)
    (hpc : x.pc cur = .idle ∨ x.pc cur = .enter r ∨ x.pc cur = .wait r)
    {s s' : CeilingState R DpcpSystem T}
    (hs : s = x.st ∨ s = x.st.switchPreempt cur .ACORAL_PREEMPT_LOCAL .ACORAL_PREEMPT_GLOBAL)
    (hqueued : DpcpQueued fuel cur r s s') :
    ∃ Q', DpcpQueues (x.goto cur (.suspend r) s') sys Q' ∧
      ∀ k, Q' (.wait k) ≠ [] → WakeOwed (x.goto cur (.suspend r) s') sys k := by
  obtain ⟨hsame, hipc, hprio⟩ := switched hs
  have hpc' : ∀ q, x.pc cur ≠ .suspend q := fun q hq => by
    rcases hpc with hpc | hpc | hpc <;> exact absurd (hpc.symm.trans hq) (by simp)
  have howner : ∀ q, s'.owner q = x.st.owner q := (hsame.trans hqueued.sameRes).owner
  obtain ⟨Q', hqueues, hother, hready'⟩ :=
    h.queues.enter (h.core.system r) hready hpc' hipc hsame.res hqueued
  refine ⟨Q', hqueues, fun k hk => ?_⟩
  by_cases hsys : k = sys r
  · have hfull := hqueued.full
    have hsys' : s.dpcpSystem r = sys r := by
      rw [← h.core.system r]
      unfold CeilingState.dpcpSystem
      rw [hsame.res]
    rw [hsame.sysPrio, hprio, hsys'] at hfull
    obtain ⟨q, hq, hused⟩ := h.used hfull
    refine Or.inl ⟨q, hq.trans hsys.symm, ?_⟩
    show s'.owner q ≠ none
    rw [howner q]
    exact hused
  · refine (h.owed k (hother k hsys ▸ hk)).keep cur (fun q _ hq => ?_) (fun q hq hw => ?_)
      (fun t ht => by rw [goto_pc, if_neg ht]) fun t _ ht => (hready' t).trans ht
    · show s'.owner q ≠ none
      rw [howner q]
      exact hq
    · rcases hpc with hpc | hpc | hpc
      · exact absurd (hpc.symm.trans hw) (by simp)
      · exact absurd (hpc.symm.trans hw) (by simp)
      · rw [DpcpPc.wait.inj (hpc.symm.trans hw)] at hsys
        exact hsys hq.symm

/-- A round that passes it. The caller uses a resource of the system. -/
theorem passed (h : DpcpWakes x sys S Q) (hready : x.st.isReady cur = true)
    (hpc : x.pc cur = .idle ∨ x.pc cur = .enter r ∨ x.pc cur = .wait r)
    {s s' : CeilingState R DpcpSystem T}
    (hs : s = x.st ∨ s = x.st.switchPreempt cur .ACORAL_PREEMPT_LOCAL .ACORAL_PREEMPT_GLOBAL)
    (hpassed : DpcpPassed cur r s s')
    (howner : ∀ q, x.st.owner q ≠ none → s'.owner q ≠ none) :
    DpcpQueues (x.ret .pend cur r .KR_OK s') sys Q ∧
      ∀ k, Q (.wait k) ≠ [] → WakeOwed (x.ret .pend cur r .KR_OK s') sys k := by
  obtain ⟨-, hipc, -⟩ := switched hs
  have hpc' : ∀ q, x.pc cur ≠ .suspend q := fun q hq => by
    rcases hpc with hpc | hpc | hpc <;> exact absurd (hpc.symm.trans hq) (by simp)
  have hkeep : s'.ipc.links = x.st.ipc.links ∧ s'.ipc.sched = x.st.ipc.sched ∧
      s'.owner r = some cur := by
    obtain ⟨s₁, v, hpush, hcases⟩ := hpassed.taken
    have hpushed : s₁.ipc = x.st.ipc := (SameButStack.push hpush).ipc.trans hipc
    rw [← hpushed]
    rcases hcases with ⟨-, rfl⟩ | ⟨-, rfl⟩ <;>
      exact ⟨rfl, rfl, (take_owner _ r r cur).trans (if_pos rfl)⟩
  have hready' : ∀ t, s'.isReady t = x.st.isReady t := fun t => by
    unfold CeilingState.isReady
    rw [hkeep.2.1]
  have hother : ∀ t, t ≠ cur → (x.ret .pend cur r .KR_OK s').pc t = x.pc t := fun t ht => by
    rw [ret_pc, if_neg ht]
  have hself : (x.ret .pend cur r .KR_OK s').pc cur = .idle := by
    rw [ret_pc, if_pos rfl]
  refine ⟨h.queues.leave (h.queues.free hpc' fun _ _ => hready) hkeep.1 hother
    (fun q => by rw [hself]; simp) (fun t _ => hready' t) fun t _ ht => ?_, fun k hk => ?_⟩
  · show s'.Asleep t
    unfold CeilingState.Asleep CeilingState.isReady CeilingState.isSuspended at ht ⊢
    rwa [hkeep.2.1]
  · by_cases hsys : k = sys r
    · refine Or.inl ⟨r, hsys.symm, ?_⟩
      show s'.owner r ≠ none
      rw [hkeep.2.2]
      simp
    · refine (h.owed k hk).keep cur (fun q _ => howner q) (fun q hq hw => ?_) hother
        fun t _ ht => (hready' t).trans ht
      rcases hpc with hpc | hpc | hpc
      · exact absurd (hpc.symm.trans hw) (by simp)
      · exact absurd (hpc.symm.trans hw) (by simp)
      · rw [DpcpPc.wait.inj (hpc.symm.trans hw)] at hsys
        exact hsys hq.symm

/-- A post by the owner, who returns or migrates back. -/
theorem posted (h : DpcpWakes x sys S Q) (hidle : x.pc cur = .idle) {c : Option Nat}
    {s' : CeilingState R DpcpSystem T} (hposted : DpcpPosted cur r x.st c s')
    (hguard : postsToSleepers x (.call .post cur r) = true) (hst : x'.st = s')
    (hpc : ∀ t, t ≠ cur → x'.pc t = x.pc t)
    (hcur : ∀ q, x'.pc cur ≠ .suspend q ∧ x'.pc cur ≠ .wait q)
    (howner : ∀ q, q ≠ r → x.st.owner q ≠ none → s'.owner q ≠ none) :
    ∃ Q', DpcpQueues x' sys Q' ∧ ∀ k, Q' (.wait k) ≠ [] → WakeOwed x' sys k := by
  subst hst
  obtain ⟨Q', hqueues, hsub, hmono, hwoken⟩ := h.queues.woken (h.core.system r) hposted hguard
  have hidle' : ∀ q, x.pc cur ≠ .suspend q ∧ x.pc cur ≠ .wait q := fun q => by simp [hidle]
  have hfree := hqueues.free (fun q => (hidle' q).1) fun q hq => absurd hq (hidle' q).2
  refine ⟨Q', hqueues.leave hfree rfl hpc hcur (fun _ _ => rfl) fun _ _ ht => ht, fun k hk => ?_⟩
  have hne : Q (.wait k) ≠ [] := fun hnil => hk (List.subset_nil.mp (hnil ▸ hsub k))
  by_cases hsys : k = sys r
  · -- the head was woken
    rcases hwoken with hempty | ⟨u, q, hq, hu, hrdy⟩
    · rw [hsys] at hne
      exact absurd hempty hne
    · have hu' : u ≠ cur := fun he => (hidle' q).2 (he ▸ hu)
      exact Or.inr ⟨u, q, hq.trans hsys.symm, (hpc u hu').trans hu, hrdy⟩
  · refine (h.owed k hne).keep cur (fun q hq hused => howner q (fun he => hsys ?_) hused)
      (fun q _ => (hidle' q).2) hpc fun t _ => hmono t
    rw [← hq, he]

/-- A step in which the posts find sleepers, and the threads that pass the test
find their resources free. -/
theorem step (h : DpcpWakes x sys S Q) (hguard : wakeGuard x op = true)
    (hstep : dpcpStep fuel x op = some x') : ∃ S' Q', DpcpWakes x' sys S' Q' := by
  obtain ⟨hpasses, hsleepers⟩ := Bool.and_eq_true_iff.mp hguard
  have hmove := dpcpStep_move h.core.sems hpasses hstep
  obtain ⟨S', heffect, hcore⟩ := h.core.move hmove
  have hkeep : (∀ cur q, op ≠ .call .post cur q) → ∀ q, x.st.owner q ≠ none → x'.st.owner q ≠ none :=
    fun hop q hq => heffect.inUse hq fun cur => hop cur q
  suffices hqueues : ∃ Q', DpcpQueues x' sys Q' ∧ ∀ k, Q' (.wait k) ≠ [] → WakeOwed x' sys k by
    obtain ⟨Q', hq, howed⟩ := hqueues
    exact ⟨S', Q', hcore, hq, heffect.prio_lt (by decide) h.prio, howed⟩
  have hret : ∀ c cur r e s t, t ≠ cur → (x.ret c cur r e s).pc t = x.pc t := fun _ _ _ _ _ t ht => by
    rw [ret_pc, if_neg ht]
  have hgoto : ∀ cur pc s t, t ≠ cur → (x.goto cur pc s).pc t = x.pc t := fun _ _ _ t ht => by
    rw [goto_pc, if_neg ht]
  have hidle : ∀ c cur r e s q, (x.ret c cur r e s).pc cur ≠ .suspend q ∧
      (x.ret c cur r e s).pc cur ≠ .wait q := fun _ _ _ _ _ q => by simp [ret_pc]
  cases hmove with
  | queued htests hready hpc hs hqueued => exact h.queued hready hpc hs hqueued
  | passed htests hready hpc hs hpassed =>
      refine ⟨Q, h.passed hready hpc hs hpassed (hkeep fun cur q hop => ?_)⟩
      rw [hop] at htests
      exact absurd htests (by simp [dpcpTests])
  | refused hpc =>
      exact ⟨Q, h.outside (by simp [hpc]) (hidle _ _ _ _ _) rfl (hret _ _ _ _ _) (fun _ _ => rfl)
        (fun _ _ ht => ht) fun _ hq => hq⟩
  | leave hpc htype hcpu =>
      exact ⟨Q, h.outside (by simp [hpc]) (by simp [goto_pc]) rfl (hgoto _ _ _) (fun _ _ => rfl)
        (fun _ _ ht => ht) fun _ hq => hq⟩
  | failed hpc he =>
      exact ⟨Q, h.outside (by simp [hpc]) (hidle _ _ _ _ _) rfl (hret _ _ _ _ _) (fun _ _ => rfl)
        (fun _ _ ht => ht) fun _ hq => hq⟩
  | @posted cur r s' hpc hposted =>
      exact h.posted hpc hposted hsleepers rfl (hret _ _ _ _ _) (hidle _ _ _ _ _) fun q hq hused =>
        heffect.inUse hused fun t he => hq (by injection he with _ _ he; exact he.symm)
  | @left cur r cpu s' hpc hposted =>
      exact h.posted hpc hposted hsleepers rfl (hgoto _ _ _) (by simp [goto_pc]) fun q hq hused =>
        heffect.inUse hused fun t he => hq (by injection he with _ _ he; exact he.symm)
  | @jump cur r hready hpc =>
      have hthread := fun t => jumpCpu_thread x.st cur (x.st.res r).cpu t hready
      exact ⟨Q, h.outside (by simp [hpc]) (by simp [goto_pc]) (jumpCpu_links ..) (hgoto _ _ _)
        (fun t _ => (hthread t).2.1) (fun t ht hsleep => hsleep.jumpCpu hready ht)
        (hkeep (by simp))⟩
  | @suspend cur r hready hpc =>
      refine ⟨Q, h.queues.suspend hready hpc, fun k hk => (h.owed k hk).keep cur (fun q _ hq => hq)
        (by simp [hpc]) (hgoto _ _ _) fun t ht hrdy => ?_⟩
      exact (CeilingState.suspendSelf_flags x.st cur t hready).1.trans ((if_neg ht).trans hrdy)
  | @back cur r cpu e hready hpc =>
      have hthread := fun t => jumpCpu_thread x.st cur cpu t hready
      exact ⟨Q, h.outside (by simp [hpc]) (hidle _ _ _ _ _) (jumpCpu_links ..) (hret _ _ _ _ _)
        (fun t _ => (hthread t).2.1) (fun t ht hsleep => hsleep.jumpCpu hready ht)
        (hkeep (by simp))⟩

omit [DecidableEq R] [DecidableEq T] in
/-- Before the first step nobody waits. -/
theorem start (sched : Sched T) (pendingValue : T → Int) (preemptType : T → PreemptType)
    (data : T → Option ThreadData) (type : R → CeilingType) (cpu : R → Nat) (ceiling : R → BitVec 8)
    (hprio : ∀ t, (sched.thread t).prio < ACORAL_MAX_PRIO_NUM) :
    DpcpWakes (.start (.start sched pendingValue preemptType data
      fun r => (type r, cpu r, (ceiling r).toNat))) (fun r => (type r, cpu r)) (fun _ => [])
      fun _ => [] where
  core := DpcpCore.start sched pendingValue preemptType data
    (fun r => (type r, cpu r, (ceiling r).toNat)) fun r => (ceiling r).isLt
  queues :=
    { waits := fun _ => Lib.Links.isRing_nil rfl rfl
      apart := fun _ _ _ ht => absurd ht List.not_mem_nil
      sem := fun _ => rfl
      linked := fun _ _ ht => absurd ht List.not_mem_nil
      window := fun _ _ ht => absurd ht (by simp [DpcpRun.start])
      waiting := fun _ _ ht => absurd ht (by simp [DpcpRun.start]) }
  prio := hprio
  owed _ hne := absurd rfl hne

end DpcpWakes

/-- Every run of DPCP, on any resources and by any threads, in which the posts
find no READY thread at the head of the queue and the threads that pass the
test find their resources free. In every state of it, a thread that is
suspended in its pend is in the wait queue, and a wake-up is owed to it: a
resource of the system is in use, or a thread that was woken for the system is
yet to make the test. -/
theorem dpcp_wakeup (fuel : Nat) (sched : Sched T) (pendingValue : T → Int)
    (preemptType : T → PreemptType) (data : T → Option ThreadData) (type : R → CeilingType)
    (cpu : R → Nat) (ceiling : R → BitVec 8)
    (hprio : ∀ t, (sched.thread t).prio < ACORAL_MAX_PRIO_NUM) (ops : List (CeilingOp R T))
    (x : DpcpRun R T)
    (hrun : run (guarded wakeGuard (dpcpStep fuel)) (.start (.start sched pendingValue preemptType
      data fun r => (type r, cpu r, (ceiling r).toNat))) ops = some x) :
    ∀ t r, x.pc t = .wait r → x.st.isReady t = false →
      (∃ waiters, x.st.ipc.Waits (.wait (type r, cpu r)) waiters ∧ t ∈ waiters) ∧
      WakeOwed x (fun q => (type q, cpu q)) (type r, cpu r) := by
  intro t r hwait hsleep
  obtain ⟨S, Q, h⟩ := guarded_induct
    (P := fun x => ∃ S Q, DpcpWakes x (fun r => (type r, cpu r)) S Q)
    (fun _ _ _ ⟨_, _, hinv⟩ hguard hstep => hinv.step hguard hstep)
    ⟨_, _, .start sched pendingValue preemptType data type cpu ceiling hprio⟩ hrun
  have hin : t ∈ Q (.wait (type r, cpu r)) := by
    rcases h.queues.waiting t r hwait with ⟨hin, -⟩ | ⟨-, hready⟩
    · exact hin
    · exact absurd (hsleep.symm.trans hready) (by simp)
  exact ⟨⟨_, h.queues.waits _, hin⟩, h.owed _ (List.ne_nil_of_mem hin)⟩

/-- Two threads of CPU 0, of the priorities 3 and 4, and two of its resources,
of ceiling 3. -/
def twoWakers : CeilingState Bool DpcpSystem (Fin 2) :=
  .start (readyThreads (fun t => t.val + 3) fun _ => 0) (fun t => t.val + 3)
    (fun _ => .ACORAL_PREEMPT_LOCAL) (fun _ => none) fun _ => (.LOCAL, 0, (3#8).toNat)

/-- The second thread suspends itself behind the first one. -/
theorem dpcp_wakeup_two :
    ∃ x, run (guarded wakeGuard (dpcpStep 4)) (.start twoWakers)
        [.call .pend 0 true, .call .pend 1 false, .resume 1] = some x ∧
      (∃ waiters, x.st.ipc.Waits (.wait (.LOCAL, 0)) waiters ∧ 1 ∈ waiters) ∧
      WakeOwed x (fun _ => (.LOCAL, 0)) (.LOCAL, 0) := by
  have hpc : (run (guarded wakeGuard (dpcpStep 4)) (.start twoWakers)
      [.call .pend 0 true, .call .pend 1 false, .resume 1]).map
        (fun x => (x.pc 1, x.st.isReady 1)) = some (.wait false, false) := by decide
  obtain ⟨x, hx, hpc⟩ := Option.map_eq_some_iff.mp hpc
  obtain ⟨hwait, hsleep⟩ := Prod.mk.inj hpc
  exact ⟨x, hx, dpcp_wakeup 4 _ _ _ _ (fun _ => .LOCAL) (fun _ => 0) (fun _ => 3) (by decide) _ x hx
    1 false hwait hsleep⟩

/-- The post of the first thread comes before the second one has suspended
itself. It takes it out of the queue and readies it, which it is. Then the
thread suspends itself: the queue is empty, and no resource is in use. -/
theorem dpcp_post_lost :
    (run (dpcpStep 4) (.start twoWakers)
        [.call .pend 0 true, .call .pend 1 false, .call .post 0 true, .resume 1]).map
      (fun x => (x.pc 1, x.st.isReady 1, x.st.waitHead (.LOCAL, 0), x.st.owner true,
        x.st.owner false)) = some (.wait false, false, some none, none, none) := by
  decide

end ACoral
