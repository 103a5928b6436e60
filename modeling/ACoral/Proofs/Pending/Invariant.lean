import ACoral.Proofs.Ceiling.Calls
import ACoral.Proofs.Pending.Linked

/-!
# `ACoral.Proofs.Pending.Invariant`: a thread is where its node is

A thread at the schedule point of a semaphore or mutex is in its wait
queue, a thread in the wait queue of a ceiling protocol is behind the call
that put it there, and only a killed thread is in the release queue
(`PendInv`). So a thread that calls an operation is in no queue, and one
that goes on behind a schedule point is in the queue it leaves.

Four steps of the code lead out of this, and `pendGuard` tells them apart:
a thread that goes on, starts over or is killed with its node still linked.

- `PendInv.step`: the other steps keep the invariant, and each of them
  links only a node that is in no queue and unlinks only one that is in one
  (`QueueMoves`).
-/

set_option autoImplicit false

namespace ACoral

/-! ### Where a thread is -/

section Place

variable {R T : Type} [DecidableEq R] [DecidableEq T]

/-- The semaphore or mutex at whose schedule point a thread is. -/
def PendPc.sem : PendPc R T → Option R
  | .mutexPend r => some r
  | .semPend r   => some r
  | .semPends r  => some r
  | .mpcpSem r   => some r
  | _            => none

/-- The thread suspended itself in a ceiling protocol, or is about to. -/
def PendPc.waits : PendPc R T → Bool
  | .mpcpWait _    => true
  | .dpcpSuspend _ => true
  | .dpcpWait _    => true
  | _              => false

/-- What is known of a thread in a queue. -/
def PendState.InQueue (x : PendState R T) (t : T) : CeilingObj R PendQueue → Prop
  | .sem r         => x.isKilled t = false ∧ (x.pc t).sem = some r
  | .wait .release => x.isKilled t = true
  | .wait _        => x.isKilled t = false ∧ (x.pc t).waits = true

/-- The invariant. -/
structure PendInv (x : PendState R T) (Q : CeilingObj R PendQueue → List T) : Prop where
  linked : PendLinked x.st.ipc Q
  place : ∀ t i, t ∈ Q i → x.InQueue t i
  pc : ∀ t r, x.isKilled t = false → (x.pc t).sem = some r → t ∈ Q (.sem r)

/-- The queues change one thread at a time: one that is in no queue enters
one, or one leaves the queue it is in. -/
inductive QueueMoves {I T : Type} [DecidableEq I] [DecidableEq T] (Q : I → List T) :
    (I → List T) → Prop
  | refl : QueueMoves Q Q
  | enter {Q' : I → List T} (h : QueueMoves Q Q') {i : I} {t : T} {q : List T}
      (hfree : ∀ j, t ∉ Q' j) (hq : q.Perm (t :: Q' i)) :
      QueueMoves Q (Function.update Q' i q)
  | leave {Q' : I → List T} (h : QueueMoves Q Q') {i : I} {t : T} (hin : t ∈ Q' i) :
      QueueMoves Q (Function.update Q' i ((Q' i).erase t))

/-- The steps that do not leave a node behind: behind the schedule point of
`acoral_mutex_pend` the mutex is free, a thread goes on behind the
suspension in a ceiling protocol only when its node is unlinked, a periodic
thread starts over only then, and the node of a thread that is killed is
unlinked, or `acoral_kill_thread` unlinks it. -/
def pendGuard (x : PendState R T) : PendOp R T → Bool
  | .resume cur =>
      match x.pc cur with
      | .mutexPend r => decide ((x.st.ipc.ipc (.sem r)).data = none)
      | .mpcpWait _  => x.unlinked cur
      | .dpcpWait _  => x.unlinked cur
      | _            => true
  | .periodTick => x.due.all fun t => !x.isSuspended t || x.unlinked t
  | .kill t     => x.unlinked t || (x.isSuspended t && (x.st.ipc.threadIpc t).isSome)
  | _           => true

end Place

variable {R T : Type} [DecidableEq R] [DecidableEq T]

omit [DecidableEq R] [DecidableEq T] in
theorem PendState.InQueue.congr {x y : PendState R T} {t : T} {i : CeilingObj R PendQueue}
    (h : x.InQueue t i) (hkilled : y.isKilled t = x.isKilled t) (hpc : y.pc t = x.pc t) :
    y.InQueue t i := by
  cases i with
  | sem r => exact ⟨hkilled.trans h.1, (congrArg PendPc.sem hpc).trans h.2⟩
  | wait k =>
      cases k with
      | release => exact hkilled.trans h
      | mpcp c => exact ⟨hkilled.trans h.1, (congrArg PendPc.waits hpc).trans h.2⟩
      | dpcp type c => exact ⟨hkilled.trans h.1, (congrArg PendPc.waits hpc).trans h.2⟩

namespace PendInv

variable {x : PendState R T} {Q Q' : CeilingObj R PendQueue → List T} {cur : T}
  {st : CeilingState R PendQueue T} {pc : PendPc R T} {fuel : Nat}

/-! ### Threads of no queue -/

omit [DecidableEq R] [DecidableEq T] in
/-- A thread that is neither killed nor at a place where it waits. -/
theorem free (h : PendInv x Q) (halive : x.isKilled cur = false) (hsem : (x.pc cur).sem = none)
    (hwaits : (x.pc cur).waits = false) (i : CeilingObj R PendQueue) : cur ∉ Q i := by
  intro hi
  have hplace := h.place cur i hi
  cases i with
  | sem r =>
      have he := hplace.2
      rw [hsem] at he
      cases he
  | wait k =>
      cases k with
      | release => exact Bool.false_ne_true (halive.symm.trans hplace)
      | mpcp c => exact Bool.false_ne_true (hwaits.symm.trans hplace.2)
      | dpcp type c => exact Bool.false_ne_true (hwaits.symm.trans hplace.2)

omit [DecidableEq R] [DecidableEq T] in
/-- A thread in no call. -/
theorem free_of_idle (h : PendInv x Q) (halive : x.isKilled cur = false)
    (hpc : x.pc cur = .idle) (i : CeilingObj R PendQueue) : cur ∉ Q i :=
  h.free halive (by rw [hpc]; rfl) (by rw [hpc]; rfl) i

/-- A thread whose node is linked to itself. -/
theorem free_of_unlinked (h : PendInv x Q) (hnode : x.unlinked cur = true)
    (i : CeilingObj R PendQueue) : cur ∉ Q i :=
  (h.linked.unlinked_iff cur).mp (of_decide_eq_true hnode) i

/-! ### One thread moves -/

omit [DecidableEq R] in
/-- The queues of the other threads stay, and `cur` is where its node is. -/
theorem goto (h : PendInv x Q) (hlinked : PendLinked st.ipc Q')
    (hexit : ∀ t, (st.ipc.sched.thread t).isExit = (x.st.ipc.sched.thread t).isExit)
    (hothers : ∀ u, u ≠ cur → ∀ i, u ∈ Q' i ↔ u ∈ Q i)
    (hplace : ∀ i, cur ∈ Q' i → (x.goto cur pc st).InQueue cur i)
    (hpc : ∀ r, pc.sem = some r → cur ∈ Q' (.sem r)) : PendInv (x.goto cur pc st) Q' := by
  have hkilled : ∀ t, (x.goto cur pc st).isKilled t = x.isKilled t := hexit
  have hother : ∀ u, u ≠ cur → (x.goto cur pc st).pc u = x.pc u := fun u hu =>
    Function.update_of_ne hu _ _
  refine ⟨hlinked, fun t i hi => ?_, fun t r halive hr => ?_⟩
  · by_cases ht : t = cur
    · subst ht
      exact hplace i hi
    · exact (h.place t i ((hothers t ht i).mp hi)).congr (hkilled t) (hother t ht)
  · by_cases ht : t = cur
    · subst ht
      refine hpc r ?_
      rwa [show (x.goto t pc st).pc t = pc from Function.update_self _ _ _] at hr
    · rw [hother t ht] at hr
      exact (hothers t ht (.sem r)).mpr (h.pc t r ((hkilled t).symm.trans halive) hr)

omit [DecidableEq R] in
/-- A thread of no queue goes on, and stays in none. -/
theorem same (h : PendInv x Q) (hfree : ∀ i, cur ∉ Q i) (hsame : SamePend x.st.ipc st.ipc)
    (hpc : pc.sem = none) : PendInv (x.goto cur pc st) Q := by
  refine h.goto (h.linked.same hsame) hsame.isExit (fun _ _ _ => Iff.rfl)
    (fun i hi => absurd hi (hfree i)) fun r hr => ?_
  rw [hpc] at hr
  cases hr

omit [DecidableEq R] in
/-- The same when the thread clears its `thread->ipc`. -/
theorem forget (h : PendInv x Q) (hfree : ∀ i, cur ∉ Q i)
    (hsame : SamePend { x.st.ipc with
      threadIpc := Function.update x.st.ipc.threadIpc cur none } st.ipc)
    (hpc : pc.sem = none) : PendInv (x.goto cur pc st) Q := by
  refine h.goto ((h.linked.forget cur).same hsame) hsame.isExit (fun _ _ _ => Iff.rfl)
    (fun i hi => absurd hi (hfree i)) fun r hr => ?_
  rw [hpc] at hr
  cases hr

/-- A thread of no queue enters that of a semaphore or mutex. -/
theorem enter (h : PendInv x Q) (halive : x.isKilled cur = false) (hfree : ∀ i, cur ∉ Q i)
    {a b : IpcState (CeilingObj R PendQueue) T} (hsame : SamePend x.st.ipc a) {r : R}
    (hadd : acoralIpcWaitQueueAdd fuel a (.sem r) cur = some b) (hsame' : SamePend b st.ipc)
    (hpc : pc.sem = some r) : ∃ Q', PendInv (x.goto cur pc st) Q' ∧ QueueMoves Q Q' := by
  have hsched : b.sched = a.sched := (((h.linked.same hsame).queues.waits (.sem r)).add
    (hfree _) hadd).2.1
  have hexit : ∀ t, (st.ipc.sched.thread t).isExit = (x.st.ipc.sched.thread t).isExit := by
    intro t
    rw [hsame'.isExit, hsched, hsame.isExit]
  have hmem : ∀ v, v ∈ a.enqueue cur (Q (.sem r)) ↔ v = cur ∨ v ∈ Q (.sem r) := fun v =>
    mem_enqueue
  refine ⟨_, h.goto (((h.linked.same hsame).enter hfree hadd).same hsame') hexit ?_ ?_ ?_,
    .enter .refl hfree (List.perm_orderedInsert _ _ _)⟩
  · intro u hu i
    rw [mem_update_insert hmem]
    simp [hu]
  · intro i hi
    rcases (mem_update_insert hmem).mp hi with ⟨-, rfl⟩ | hi
    · refine ⟨(hexit cur).trans halive, ?_⟩
      rw [show (x.goto cur pc st).pc cur = pc from Function.update_self _ _ _]
      exact hpc
    · exact absurd hi (hfree i)
  · intro q hq
    rw [hpc, Option.some.injEq] at hq
    exact (mem_update_insert hmem).mpr (Or.inl ⟨rfl, congrArg _ hq.symm⟩)

/-- A thread of no queue enters that of a ceiling protocol. -/
theorem queue (h : PendInv x Q) (halive : x.isKilled cur = false) (hfree : ∀ i, cur ∉ Q i)
    {a b : CeilingState R PendQueue T} (hsame : SamePend x.st.ipc a.ipc) {k : PendQueue}
    (hk : k ≠ .release) (hadd : a.waitAdd fuel k cur = some b) (hsame' : SamePend b.ipc st.ipc)
    (hpc : pc.waits = true) : ∃ Q', PendInv (x.goto cur pc st) Q' ∧ QueueMoves Q Q' := by
  have hlinked := h.linked.same hsame
  have hsched : b.ipc.sched = a.ipc.sched :=
    (CeilingState.waitAdd_queues hlinked.queues hfree hadd).2
  have hexit : ∀ t, (st.ipc.sched.thread t).isExit = (x.st.ipc.sched.thread t).isExit := by
    intro t
    rw [hsame'.isExit, hsched, hsame.isExit]
  have hmem : ∀ v, v ∈ a.ipc.enqueue cur (Q (.wait k)) ↔ v = cur ∨ v ∈ Q (.wait k) := fun v =>
    mem_enqueue
  have hcur : (x.goto cur pc st).isKilled cur = false ∧ ((x.goto cur pc st).pc cur).waits = true :=
    ⟨(hexit cur).trans halive, by
      rw [show (x.goto cur pc st).pc cur = pc from Function.update_self _ _ _]
      exact hpc⟩
  refine ⟨_, h.goto ((hlinked.waitAdd hfree hadd).same hsame') hexit ?_ ?_ ?_,
    .enter .refl hfree (List.perm_orderedInsert _ _ _)⟩
  · intro u hu i
    rw [mem_update_insert hmem]
    simp [hu]
  · intro i hi
    rcases (mem_update_insert hmem).mp hi with ⟨-, rfl⟩ | hi
    · cases k with
      | release => exact absurd rfl hk
      | mpcp c => exact hcur
      | dpcp type c => exact hcur
    · exact absurd hi (hfree i)
  · intro q hq
    cases pc <;> cases hpc <;> cases hq

/-- A thread at the schedule point of a semaphore or mutex leaves the queue,
and is in none. -/
theorem leave (h : PendInv x Q) (halive : x.isKilled cur = false) {r : R}
    (hr : (x.pc cur).sem = some r) {a : IpcState (CeilingObj R PendQueue) T}
    (hdel : acoralIpcWaitQueueDel x.st.ipc cur = some a) (hsame : SamePend a st.ipc)
    (hpc : pc.sem = none) : ∃ Q', PendInv (x.goto cur pc st) Q' ∧ QueueMoves Q Q' := by
  have hin : cur ∈ Q (.sem r) := h.pc cur r halive hr
  have hsched : a.sched = x.st.ipc.sched := by
    obtain ⟨links, -, rfl⟩ := Option.map_eq_some_iff.mp hdel
    rfl
  have hmem := fun u j => h.linked.queues.mem_update_erase hin (u := u) (j := j)
  refine ⟨_, h.goto ((h.linked.leave hin hdel).same hsame) ?_ ?_ ?_ ?_, .leave .refl hin⟩
  · intro t
    rw [hsame.isExit, hsched]
  · intro u hu i
    rw [hmem]
    simp [hu]
  · intro i hi
    exact absurd rfl ((hmem cur i).mp hi).2
  · intro q hq
    rw [hpc] at hq
    cases hq

/-! ### No thread moves -/

variable {y : PendState R T}

omit [DecidableEq R] [DecidableEq T] in
/-- The tick queues and the flags do not matter. -/
theorem congr (h : PendInv x Q) (hpc : y.pc = x.pc) (hlinked : PendLinked y.st.ipc Q)
    (hkilled : ∀ t, y.isKilled t = x.isKilled t) : PendInv y Q := by
  refine ⟨hlinked, fun t i hi => ?_, fun t r halive hr => ?_⟩
  · exact (h.place t i hi).congr (hkilled t) (congrFun hpc t)
  · rw [hpc] at hr
    exact h.pc t r ((hkilled t).symm.trans halive) hr

omit [DecidableEq R] in
/-- An operation that leaves the nodes alone. -/
theorem frame (h : PendInv x Q) (hpc : y.pc = x.pc) (hsame : SamePend x.st.ipc y.st.ipc) :
    PendInv y Q :=
  h.congr hpc (h.linked.same hsame) hsame.isExit

omit [DecidableEq R] [DecidableEq T] in
/-- Threads of no queue start over. -/
theorem restart (h : PendInv x Q) (P : T → Prop) [DecidablePred P]
    (hfree : ∀ t, P t → ∀ i, t ∉ Q i) :
    PendInv { x with pc := fun t => if P t then .idle else x.pc t } Q := by
  have hpc : ∀ t i, t ∈ Q i →
      (if P t then (.idle : PendPc R T) else x.pc t) = x.pc t := fun t i hi =>
    if_neg fun ht => hfree t ht i hi
  refine ⟨h.linked, fun t i hi => ?_, fun t r halive hr => ?_⟩
  · exact (h.place t i hi).congr rfl (hpc t i hi)
  · by_cases ht : P t
    · simp only [if_pos ht] at hr
      cases hr
    · simp only [if_neg ht] at hr
      exact h.pc t r halive hr

/-- `acoral_dpcp_post` wakes the head of the wait queue of the system. -/
theorem wake (h : PendInv x Q) {k : PendQueue} (heffect : WakeEffect k x.st st) :
    ∃ Q', PendInv { x with st := st } Q' ∧ QueueMoves Q Q' := by
  have hexit := heffect.isExit
  cases heffect with
  | none hsame => exact ⟨Q, h.frame rfl hsame, .refl⟩
  | @some a b t hsame hhead hdel hsame' =>
      have hlinked := h.linked.same hsame
      have hin : t ∈ Q (.wait k) := by
        have hhigh := (hlinked.queues.waits (.wait k)).high
        rw [show acoralIpcHighThread a.ipc (.wait k) = some (some t) from hhead,
          Option.some.injEq] at hhigh
        exact List.mem_of_mem_head? hhigh.symm
      have hmem := fun u j => hlinked.queues.mem_update_erase hin (u := u) (j := j)
      refine ⟨_, ⟨(hlinked.waitDel hin hdel).same hsame', fun u i hi => ?_, fun u r halive hr => ?_⟩,
        .leave .refl hin⟩
      · exact (h.place u i ((hmem u i).mp hi).1).congr (hexit u) rfl
      · refine (hmem u _).mpr ⟨h.pc u r ((hexit u).symm.trans halive) hr, ?_⟩
        rintro rfl
        cases h.linked.queues.apart _ _ u hin (h.pc u r ((hexit u).symm.trans halive) hr)

end PendInv

end ACoral
