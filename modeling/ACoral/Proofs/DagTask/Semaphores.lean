import ACoral.Kernel.DagTask
import ACoral.Lib.Gates
import ACoral.Proofs.WaitQueue

/-!
# `ACoral.Proofs.DagTask.Semaphores`: the semaphore of a node is its gate

The semaphore of a node counts 0 from the post of the node on, and 1 from its
`dag_deal_hook` on. `DagIpc` ties the semaphores, their wait queues and the states of
the threads to the places the threads are at, and each operation keeps it:

* `DagIpc.pass` and `DagIpc.block`: what `acoral_sem_pends` does says whether the node
  has posted;
* `DagIpc.resume`: a thread that was readied leaves the queue;
* `DagIpc.post`: `acoral_sem_posts` readies everybody in the queue, which keeps them
  until they run (`semRdyAll_ring`);
* `DagIpc.release`: `dag_deal_hook` initialises a queue that is empty.
-/

set_option autoImplicit false

namespace ACoral

open Lib (Phase)

variable {R A T : Type} [DecidableEq T]

/-- The threads of the DAGs, in the order of their creation, each with the nodes before it. -/
structure DagTasks (T R A : Type) where
  task : T → DagThread R A
  order : List T
  before : T → List T
  nodup : order.Nodup
  all : ∀ t, t ∈ order
  wired : ∀ t, (task t).pendIpc = (before t).map fun p => some (task p).postIpc
  count : ∀ t, (task t).pendIpcCnt = (before t).length
  post : ∀ s t, (task s).postIpc = (task t).postIpc → s = t
  time : ∀ t, ∀ p ∈ before t, (task p).time = (task t).time
  period : ∀ t, 0 < (timeToTicks (BitVec.ofNat 32 (task t).time)).toNat

omit [DecidableEq T] in
/-- A place of `pend_ipc` is that of a thread. -/
theorem DagTasks.gate (D : DagTasks T R A) {t : T} {i : Nat} (hi : i < (D.task t).pendIpcCnt) :
    ∃ p, (D.before t)[i]? = some p := by
  rw [D.count] at hi
  exact ⟨_, List.getElem?_eq_getElem hi⟩

/-- What a place in `acoral_dag_task` means for the node. -/
def DagPc.phase (ready : Bool) : DagPc → Phase
  | .absent      => .shut
  | .pend i      => .facing i
  | .pends i     => if ready then .woken i else .blocked i
  | .route       => .work
  | .post        => .leaving
  | .exit | .done => .free

/-- The thread runs on its own account, and its node has not posted. -/
def DagPc.running : DagPc → Bool
  | .pend _ | .route | .post           => true
  | .absent | .pends _ | .exit | .done => false

/-- The node has posted. -/
def DagPc.posted : DagPc → Bool
  | .exit | .done                                => true
  | .absent | .pend _ | .pends _ | .route | .post => false

theorem DagPc.posted_of_running {pc : DagPc} (h : pc.running = true) : pc.posted = false := by
  cases pc <;> first | rfl | cases h

theorem DagPc.phase_eq_free (ready : Bool) (pc : DagPc) :
    pc.phase ready = .free ↔ pc.posted = true := by
  cases pc <;> cases ready <;> simp [DagPc.phase, DagPc.posted]

/-! ### The loop of `acoral_sem_posts` -/

section Loop

variable {I : Type} [DecidableEq I]

/-- The loop readies every member of the queue that is not READY, and changes no queue. The
induction is on the rest of the queue. -/
theorem semRdyAll_ring {i : I} {l₂ : List T} {s s' : IpcState I T} {l₁ : List T} {fuel : Nat}
    (hw : s.Waits i (l₁ ++ l₂))
    (h : semRdyAll i fuel ((l₂.map .pending).headD (.head i)) s = some s') :
    s'.links = s.links ∧ s'.ipc = s.ipc ∧ ∀ u,
      s'.isReady u = (if u ∈ l₂ ∧ s.isSuspended u = true then true else s.isReady u) ∧
      s'.isSuspended u = if u ∈ l₂ then false else s.isSuspended u := by
  induction l₂ generalizing fuel l₁ s with
  | nil =>
      cases fuel with
      | zero => cases h
      | succ fuel =>
          simp only [List.map_nil, List.headD_nil, semRdyAll, if_true, Option.some.injEq] at h
          subst h
          simp
  | cons t l₂ ih =>
      cases fuel with
      | zero => cases h
      | succ fuel =>
          have hnext : (s.rdyThread t).links.next (.pending t) =
              (l₂.map .pending).headD (.head i) := by
            have hring := hw
            unfold IpcState.Waits at hring
            rw [List.map_append, List.map_cons] at hring
            exact hring.next_mem
          have hloop : semRdyAll i fuel ((s.rdyThread t).links.next (.pending t))
              (s.rdyThread t) = some s' := h
          rw [hnext] at hloop
          have hw' : (s.rdyThread t).Waits i ((l₁ ++ [t]) ++ l₂) := by
            show s.Waits i _
            rwa [List.append_assoc]
          obtain ⟨hlinks, hipc, hflag⟩ := ih hw' hloop
          have hnot : t ∉ l₂ := by
            have hnd := hw.nodup
            rw [List.nodup_append, List.nodup_cons] at hnd
            exact hnd.2.1.1
          refine ⟨hlinks, hipc, fun u => ?_⟩
          obtain ⟨hready, hsusp⟩ := hflag u
          obtain ⟨hr, hs⟩ := rdyThread_flags s t u
          rw [hready, hsusp, hr, hs]
          by_cases hu : u = t
          · subst hu
            simp [hnot]
          · simp [hu]

/-- With a step for each member and one for the head, the loop comes to its end. -/
theorem semRdyAll_isSome {i : I} {l₂ : List T} {s : IpcState I T} {l₁ : List T} {fuel : Nat}
    (hw : s.Waits i (l₁ ++ l₂)) (hfuel : l₂.length < fuel) :
    (semRdyAll i fuel ((l₂.map .pending).headD (.head i)) s).isSome = true := by
  induction l₂ generalizing fuel l₁ s with
  | nil =>
      obtain ⟨n, rfl⟩ := Nat.exists_eq_succ_of_ne_zero (Nat.ne_zero_of_lt hfuel)
      simp [semRdyAll]
  | cons t l₂ ih =>
      obtain ⟨n, rfl⟩ := Nat.exists_eq_succ_of_ne_zero (Nat.ne_zero_of_lt hfuel)
      have hnext : (s.rdyThread t).links.next (.pending t) =
          (l₂.map .pending).headD (.head i) := by
        have hring := hw
        unfold IpcState.Waits at hring
        rw [List.map_append, List.map_cons] at hring
        exact hring.next_mem
      have hw' : (s.rdyThread t).Waits i ((l₁ ++ [t]) ++ l₂) := by
        show s.Waits i _
        rwa [List.append_assoc]
      have hrest := ih hw' (Nat.lt_of_succ_lt_succ hfuel)
      rw [← hnext] at hrest
      exact hrest

end Loop

/-! ### The invariant -/

/-- The semaphores, their wait queues `Q` and the states of the threads, when the threads
are at `pc`. -/
structure DagIpc (D : DagTasks T R A) (ipc : IpcState Nat T) (pc : T → DagPc)
    (Q : Nat → List T) : Prop where
  flags : ∀ t, ipc.isSuspended t = !ipc.isReady t
  asleep : ∀ t, pc t = .absent ∨ pc t = .done → ipc.isReady t = false
  awake : ∀ t, (pc t).running = true ∨ pc t = .exit → ipc.isReady t = true
  type : ∀ t, (ipc.ipc (D.task t).postIpc).type = .ACORAL_IPC_SEM
  count : ∀ t, (ipc.ipc (D.task t).postIpc).count = if (pc t).posted then 0 else 1
  queues : ipc.Queues Q
  waits : ∀ t s, t ∈ Q s ↔
    ∃ i p, pc t = .pends i ∧ (D.before t)[i]? = some p ∧ s = (D.task p).postIpc

namespace DagIpc

variable {D : DagTasks T R A} {ipc ipc' : IpcState Nat T} {pc : T → DagPc} {Q : Nat → List T}
  {cur : T}

omit [DecidableEq T] in
/-- Whether the semaphore of a node is available says whether the node has posted. -/
theorem available (h : DagIpc D ipc pc Q) (p : T) :
    semAvailable (ipc.ipc (D.task p).postIpc).count = (pc p).posted := by
  rw [h.count p]
  cases (pc p).posted <;> rfl

omit [DecidableEq T] in
/-- A thread in no call is in no queue. -/
theorem notMem (h : DagIpc D ipc pc Q) (hpc : ∀ i, pc cur ≠ .pends i) (s : Nat) : cur ∉ Q s := by
  intro hin
  obtain ⟨i, -, hi, -⟩ := (h.waits cur s).mp hin
  exact hpc i hi

/-- A thread goes to another place. The flags of others may change at a schedule point only. -/
theorem move (h : DagIpc D ipc pc Q) {place : DagPc} {Q' : Nat → List T}
    (hflags : ∀ u, ipc'.isSuspended u = !ipc'.isReady u)
    (hother : ∀ u, u ≠ cur → (∀ i, pc u ≠ .pends i) → ipc'.isReady u = ipc.isReady u)
    (hasleep : place = .absent ∨ place = .done → ipc'.isReady cur = false)
    (hawake : place.running = true ∨ place = .exit → ipc'.isReady cur = true)
    (htype : ∀ t, (ipc'.ipc (D.task t).postIpc).type = (ipc.ipc (D.task t).postIpc).type)
    (hcount : ∀ t, t ≠ cur →
      (ipc'.ipc (D.task t).postIpc).count = (ipc.ipc (D.task t).postIpc).count)
    (hcur : (ipc'.ipc (D.task cur).postIpc).count = if place.posted then 0 else 1)
    (hqueues : ipc'.Queues Q')
    (hwaits : ∀ t s, t ≠ cur → (t ∈ Q' s ↔ t ∈ Q s))
    (hwait : ∀ s, cur ∈ Q' s ↔
      ∃ i p, place = .pends i ∧ (D.before cur)[i]? = some p ∧ s = (D.task p).postIpc) :
    DagIpc D ipc' (Function.update pc cur place) Q' := by
  have hother' : ∀ {u q}, u ≠ cur → pc u = q → (∀ i, q ≠ .pends i) →
      ipc'.isReady u = ipc.isReady u := by
    intro u q hu hq hne
    refine hother u hu fun i hi => hne i ?_
    rw [← hq, hi]
  constructor
  case flags => exact hflags
  case asleep =>
    intro t ht
    by_cases hc : t = cur
    · rw [hc, Function.update_self] at ht
      rw [hc]
      exact hasleep ht
    · rw [Function.update_of_ne hc] at ht
      rcases ht with hp | hp <;> rw [hother' hc hp fun _ => DagPc.noConfusion]
      · exact h.asleep t (Or.inl hp)
      · exact h.asleep t (Or.inr hp)
  case awake =>
    intro t ht
    by_cases hc : t = cur
    · rw [hc, Function.update_self] at ht
      rw [hc]
      exact hawake ht
    · rw [Function.update_of_ne hc] at ht
      rw [hother t hc fun i hi => ?_]
      · exact h.awake t ht
      · rw [hi] at ht
        rcases ht with ht | ht <;> cases ht
  case type =>
    intro t
    rw [htype t]
    exact h.type t
  case count =>
    intro t
    by_cases hc : t = cur
    · rw [hc, Function.update_self]
      exact hcur
    · rw [Function.update_of_ne hc, hcount t hc]
      exact h.count t
  case queues => exact hqueues
  case waits =>
    intro t s
    by_cases hc : t = cur
    · rw [hc, Function.update_self]
      exact hwait s
    · rw [Function.update_of_ne hc, hwaits t s hc]
      exact h.waits t s

omit [DecidableEq T] in
/-- No place but a schedule point is one. -/
theorem no_wait {place : DagPc} (hplace : ∀ i, place ≠ .pends i) {s : Nat} (hs : cur ∉ Q s) :
    cur ∈ Q s ↔ ∃ i p, place = .pends i ∧ (D.before cur)[i]? = some p ∧
      s = (D.task p).postIpc := by
  refine iff_of_false hs ?_
  rintro ⟨i, -, hi, -⟩
  exact hplace i hi

theorem running_not_pends {place : DagPc} (h : place.running = true) (i : Nat) :
    place ≠ .pends i := by
  intro he
  rw [he] at h
  cases h

/-- A change of place that no semaphore takes part in. -/
theorem goto (h : DagIpc D ipc pc Q) {place : DagPc} (hold : (pc cur).running = true)
    (hnew : place.running = true) : DagIpc D ipc (Function.update pc cur place) Q := by
  have hnot : ∀ s, cur ∉ Q s := h.notMem (running_not_pends hold)
  refine h.move h.flags (fun _ _ _ => rfl) (fun hp => ?_) (fun _ => h.awake cur (Or.inl hold))
    (fun _ => rfl) (fun _ _ => rfl) ?_ h.queues (fun _ _ _ => Iff.rfl)
    fun s => no_wait (running_not_pends hnew) (hnot s)
  · rcases hp with hp | hp <;> rw [hp] at hnew <;> cases hnew
  · rw [h.count cur, DagPc.posted_of_running hold, DagPc.posted_of_running hnew]

/-- `acoral_sem_pends` of the semaphore of `p`, when `p` has posted. -/
theorem pass (h : DagIpc D ipc pc Q) {p : T} (fuel : Nat) (cur : T)
    (hposted : (pc p).posted = true) :
    acoralSemPends fuel cur 0 (some (D.task p).postIpc) ipc = some (.ret .KR_OK, ipc) := by
  have hav := h.available p
  rw [hposted] at hav
  simp [acoralSemPends, ipcPendCheck, ipcCheck, h.type p, hav]

/-- `acoral_sem_pends` of the semaphore of `p`, when `p` has not posted. -/
theorem block_eq (h : DagIpc D ipc pc Q) {p : T} (fuel : Nat) (cur : T)
    (hposted : (pc p).posted = false) :
    acoralSemPends fuel cur 0 (some (D.task p).postIpc) ipc =
      ipcBlock fuel ipc (D.task p).postIpc cur := by
  have hav := h.available p
  rw [hposted] at hav
  simp [acoralSemPends, ipcPendCheck, ipcCheck, h.type p, hav]

/-- A thread that finds the semaphore of `p` at 1 enters its queue and is suspended. -/
theorem block (h : DagIpc D ipc pc Q) {i fuel : Nat} {p : T} (hpc : pc cur = .pend i)
    (hgate : (D.before cur)[i]? = some p) {res : CallResult Nat × IpcState Nat T}
    (hres : ipcBlock fuel ipc (D.task p).postIpc cur = some res) :
    res.1 = .blocked (D.task p).postIpc ∧
      (∀ u, res.2.isReady u = if u = cur then false else ipc.isReady u) ∧
      ∃ Q', DagIpc D res.2 (Function.update pc cur (.pends i)) Q' := by
  obtain ⟨s', hadd, rfl⟩ := Option.map_eq_some_iff.mp hres
  have hready : ipc.isReady cur = true := h.awake cur (Or.inl (by rw [hpc]; rfl))
  have hfree : ∀ s, cur ∉ Q s := h.notMem fun j he => by rw [hpc] at he; cases he
  have hqueues : (ipc.suspendSelf cur).Queues Q := h.queues.congr rfl
  obtain ⟨-, hsched, hipc⟩ := (hqueues.waits (D.task p).postIpc).add (hfree _) hadd
  have hflag : ∀ u, s'.isReady u = (if u = cur then false else ipc.isReady u) ∧
      s'.isSuspended u = (if u = cur then true else ipc.isSuspended u) := by
    intro u
    have hself := suspendSelf_flags hready u
    unfold IpcState.isReady IpcState.isSuspended at hself ⊢
    rw [hsched]
    exact hself
  have hmem : ∀ t s, t ∈ Function.update Q (D.task p).postIpc
      ((ipc.suspendSelf cur).enqueue cur (Q (D.task p).postIpc)) s ↔
        t = cur ∧ s = (D.task p).postIpc ∨ t ∈ Q s := by
    intro t s
    by_cases hs : s = (D.task p).postIpc
    · rw [hs, Function.update_self, mem_enqueue]
      simp
    · rw [Function.update_of_ne hs]
      simp [hs]
  refine ⟨rfl, fun u => (hflag u).1, _, h.move (fun u => ?_) (fun u hu _ => ?_) (fun _ => ?_)
    (fun hp => ?_) (fun t => by rw [hipc]; rfl) (fun t _ => by rw [hipc]; rfl) ?_
    (hqueues.add hfree hadd) (fun t s ht => ?_) fun s => ?_⟩
  · rw [(hflag u).1, (hflag u).2]
    split
    · rfl
    · exact h.flags u
  · rw [(hflag u).1, if_neg hu]
  · rw [(hflag cur).1, if_pos rfl]
  · rcases hp with hp | hp <;> cases hp
  · rw [hipc]
    show (ipc.ipc _).count = _
    rw [h.count cur, hpc]
    rfl
  · rw [hmem]
    simp [ht]
  · rw [hmem]
    constructor
    · rintro (⟨-, hs⟩ | hin)
      · exact ⟨i, p, rfl, hgate, hs⟩
      · exact absurd hin (hfree s)
    · rintro ⟨j, q, hj, hq, hs⟩
      cases hj
      obtain rfl : p = q := Option.some.inj (hgate.symm.trans hq)
      exact Or.inl ⟨rfl, hs⟩

/-- A thread that was readied leaves the queue, and goes on. -/
theorem resume (h : DagIpc D ipc pc Q) {i : Nat} {p : T} (hpc : pc cur = .pends i)
    (hgate : (D.before cur)[i]? = some p) (hready : ipc.isReady cur = true)
    {res : KernelError × IpcState Nat T} (hres : acoralSemPendResume cur ipc = some res) :
    (∀ u, res.2.isReady u = ipc.isReady u) ∧
      ∃ Q', DagIpc D res.2 (Function.update pc cur (.pend (i + 1))) Q' := by
  obtain ⟨s', hdel, rfl⟩ := Option.map_eq_some_iff.mp hres
  have hin : cur ∈ Q (D.task p).postIpc := (h.waits cur _).mpr ⟨i, p, hpc, hgate, rfl⟩
  have hnodup := (h.queues.waits (D.task p).postIpc).nodup
  obtain ⟨l₁, l₂, hsplit⟩ := List.append_of_mem hin
  obtain ⟨-, hsched, hipc⟩ := (hsplit ▸ h.queues.waits (D.task p).postIpc).del hdel
  have hflag : ∀ u, s'.isReady u = ipc.isReady u ∧ s'.isSuspended u = ipc.isSuspended u := by
    intro u
    unfold IpcState.isReady IpcState.isSuspended
    rw [hsched]
    exact ⟨rfl, rfl⟩
  have hmem : ∀ t s, t ∈ Function.update Q (D.task p).postIpc ((Q (D.task p).postIpc).erase cur) s ↔
      t ≠ cur ∧ t ∈ Q s := by
    intro t s
    by_cases hs : s = (D.task p).postIpc
    · rw [hs, Function.update_self, hnodup.mem_erase_iff]
    · rw [Function.update_of_ne hs]
      refine ⟨fun ht => ⟨fun hc => hs ?_, ht⟩, And.right⟩
      subst hc
      exact h.queues.apart _ _ t ht hin
  refine ⟨fun u => (hflag u).1, _, h.move (fun u => ?_) (fun u _ _ => (hflag u).1) (fun hp => ?_)
    (fun _ => (hflag cur).1.trans hready) (fun t => by rw [hipc]) (fun t _ => by rw [hipc]) ?_
    (h.queues.del hin hdel) (fun t s ht => ?_)
    fun s => no_wait (fun _ => DagPc.noConfusion) fun hc => ((hmem cur s).mp hc).1 rfl⟩
  · rw [(hflag u).1, (hflag u).2]
    exact h.flags u
  · rcases hp with hp | hp <;> cases hp
  · rw [hipc, h.count cur, hpc]
    rfl
  · rw [hmem]
    simp [ht]

/-- `acoral_sem_posts` takes the semaphore to 0, and its loop begins with the first member of
the queue. -/
theorem posts_eq (h : DagIpc D ipc pc Q) (fuel : Nat) (hpc : pc cur = .post) :
    acoralSemPosts fuel (some (D.task cur).postIpc) ipc =
      (semRdyAll (D.task cur).postIpc fuel
        (((Q (D.task cur).postIpc).map .pending).headD (.head (D.task cur).postIpc))
          (decCount ipc (D.task cur).postIpc)).map fun s => (.KR_OK, s) := by
  have hcount : (ipc.ipc (D.task cur).postIpc).count = 1 := by
    rw [h.count cur, hpc]
    rfl
  have hring : (decCount ipc (D.task cur).postIpc).Waits _ _ :=
    h.queues.waits (D.task cur).postIpc
  unfold acoralSemPosts ipcCheck
  simp only [h.type cur, ne_eq, not_true_eq_false, if_false, hcount]
  rw [if_pos (by decide), if_pos (by decide), ← hring.next_head]

/-- `acoral_sem_posts` takes the semaphore to 0 and readies everybody in its queue. -/
theorem posts (h : DagIpc D ipc pc Q) {fuel : Nat} (hpc : pc cur = .post)
    {res : KernelError × IpcState Nat T}
    (hres : acoralSemPosts fuel (some (D.task cur).postIpc) ipc = some res) :
    (∀ u, res.2.isReady u = (ipc.isReady u || decide (u ∈ Q (D.task cur).postIpc))) ∧
      DagIpc D res.2 (Function.update pc cur .exit) Q := by
  have hcount : (ipc.ipc (D.task cur).postIpc).count = 1 := by
    rw [h.count cur, hpc]
    rfl
  rw [h.posts_eq fuel hpc] at hres
  obtain ⟨s', hloop, rfl⟩ := Option.map_eq_some_iff.mp hres
  have hqueues : (decCount ipc (D.task cur).postIpc).Queues Q := h.queues.congr rfl
  have hw : (decCount ipc (D.task cur).postIpc).Waits (D.task cur).postIpc
      ([] ++ Q (D.task cur).postIpc) := hqueues.waits (D.task cur).postIpc
  obtain ⟨hlinks, hipc, hflag⟩ := semRdyAll_ring hw hloop
  have hready : ∀ u, s'.isReady u = (ipc.isReady u || decide (u ∈ Q (D.task cur).postIpc)) := by
    intro u
    rw [(hflag u).1]
    show (if u ∈ Q (D.task cur).postIpc ∧ ipc.isSuspended u = true then true
      else ipc.isReady u) = _
    rw [h.flags u]
    cases hu : ipc.isReady u <;> by_cases hin : u ∈ Q (D.task cur).postIpc <;> simp [hin]
  have hcur : cur ∉ Q (D.task cur).postIpc := h.notMem (fun i hi => by rw [hpc] at hi; cases hi) _
  have hpost : ∀ {t}, t ≠ cur → (D.task t).postIpc ≠ (D.task cur).postIpc :=
    fun ht he => ht (D.post _ _ he)
  refine ⟨hready, h.move (fun u => ?_) (fun u hu hne => ?_) (fun hp => ?_) (fun _ => ?_)
    (fun t => ?_) (fun t ht => ?_) ?_ (hqueues.congr hlinks) (fun _ _ _ => Iff.rfl)
    fun s => no_wait (fun _ => DagPc.noConfusion)
      (h.notMem (fun i hi => by rw [hpc] at hi; cases hi) s)⟩
  · rw [hready, (hflag u).2]
    show (if u ∈ Q (D.task cur).postIpc then false else ipc.isSuspended u) = _
    rw [h.flags u]
    by_cases hin : u ∈ Q (D.task cur).postIpc <;> simp [hin]
  · have hout : u ∉ Q (D.task cur).postIpc := h.notMem hne _
    rw [hready, decide_eq_false hout, Bool.or_false]
  · rcases hp with hp | hp <;> cases hp
  · rw [hready, h.awake cur (Or.inl (by rw [hpc]; rfl))]
    rfl
  · rw [hipc]
    by_cases ht : t = cur
    · rw [ht]
      simp [decCount, IpcState.setIpc]
    · simp [decCount, IpcState.setIpc, Function.update_of_ne (hpost ht)]
  · rw [hipc]
    simp [decCount, IpcState.setIpc, Function.update_of_ne (hpost ht)]
  · rw [hipc]
    simp [decCount, IpcState.setIpc, hcount, DagPc.posted]

/-- The thread suspends itself when it is through. -/
theorem suspend (h : DagIpc D ipc pc Q) (hpc : pc cur = .exit) :
    (∀ u, (ipc.suspendSelf cur).isReady u = if u = cur then false else ipc.isReady u) ∧
      DagIpc D (ipc.suspendSelf cur) (Function.update pc cur .done) Q := by
  have hflag := suspendSelf_flags (h.awake cur (Or.inr hpc))
  refine ⟨fun u => (hflag u).1, h.move (fun u => ?_) (fun u hu _ => ?_) (fun _ => ?_)
    (fun hp => ?_) (fun _ => rfl) (fun _ _ => rfl) ?_ (h.queues.congr rfl) (fun _ _ _ => Iff.rfl)
    fun s => no_wait (fun _ => DagPc.noConfusion)
      (h.notMem (fun i hi => by rw [hpc] at hi; cases hi) s)⟩
  · rw [(hflag u).1, (hflag u).2]
    split
    · rfl
    · exact h.flags u
  · rw [(hflag u).1, if_neg hu]
  · rw [(hflag cur).1, if_pos rfl]
  · rcases hp with hp | hp <;> cases hp
  · show (ipc.ipc _).count = _
    rw [h.count cur, hpc]
    rfl

/-- A thread that is created, or released after its semaphore is set up again, starts in front
of its first predecessor. `ipc'` is the state with the semaphore at 1. -/
theorem start (h : DagIpc D ipc pc Q) (hpc : pc cur = .absent ∨ pc cur = .done)
    (hsched : ipc'.sched = ipc.sched)
    (htype : ∀ t, (ipc'.ipc (D.task t).postIpc).type = (ipc.ipc (D.task t).postIpc).type)
    (hcount : ∀ t, t ≠ cur →
      (ipc'.ipc (D.task t).postIpc).count = (ipc.ipc (D.task t).postIpc).count)
    (hcur : (ipc'.ipc (D.task cur).postIpc).count = 1) (hqueues : ipc'.Queues Q) :
    (∀ u, (ipc'.rdyThread cur).isReady u = if u = cur then true else ipc.isReady u) ∧
      DagIpc D (ipc'.rdyThread cur) (Function.update pc cur (.pend 0)) Q := by
  have hsleep : ipc.isReady cur = false := h.asleep cur hpc
  have hsusp : ipc'.isSuspended cur = true := by
    have hs := h.flags cur
    rw [hsleep] at hs
    unfold IpcState.isSuspended at hs ⊢
    rw [hsched]
    exact hs
  have hflag : ∀ u, (ipc'.rdyThread cur).isReady u = (if u = cur then true else ipc.isReady u) ∧
      (ipc'.rdyThread cur).isSuspended u = if u = cur then false else ipc.isSuspended u := by
    intro u
    obtain ⟨hr, hs⟩ := rdyThread_flags ipc' cur u
    rw [hr, hs]
    unfold IpcState.isReady IpcState.isSuspended at hsusp ⊢
    rw [hsched] at hsusp ⊢
    simp only [hsusp, and_true]
  have hnot : ∀ i, pc cur ≠ .pends i := by
    intro i he
    rw [he] at hpc
    rcases hpc with hp | hp <;> cases hp
  refine ⟨fun u => (hflag u).1, h.move (fun u => ?_) (fun u hu _ => ?_) (fun hp => ?_)
    (fun _ => ?_) htype hcount hcur (hqueues.congr rfl) (fun _ _ _ => Iff.rfl)
    fun s => no_wait (fun _ => DagPc.noConfusion) (h.notMem hnot s)⟩
  · rw [(hflag u).1, (hflag u).2]
    split
    · rfl
    · exact h.flags u
  · rw [(hflag u).1, if_neg hu]
  · rcases hp with hp | hp <;> cases hp
  · rw [(hflag cur).1, if_pos rfl]

/-- A thread is created. -/
theorem create (h : DagIpc D ipc pc Q) (hpc : pc cur = .absent) :
    (∀ u, (ipc.rdyThread cur).isReady u = if u = cur then true else ipc.isReady u) ∧
      DagIpc D (ipc.rdyThread cur) (Function.update pc cur (.pend 0)) Q := by
  refine h.start (Or.inl hpc) rfl (fun _ => rfl) (fun _ _ => rfl) ?_ h.queues
  rw [h.count cur, hpc]
  rfl

/-- A thread is released. Nobody waits for its semaphore, so that `dag_deal_hook` takes nobody
out of a queue. -/
theorem release (h : DagIpc D ipc pc Q) (hpc : pc cur = .done)
    (hnobody : Q (D.task cur).postIpc = []) :
    (∀ u, ((dagDealHook ipc (D.task cur)).rdyThread cur).isReady u =
        if u = cur then true else ipc.isReady u) ∧
      DagIpc D ((dagDealHook ipc (D.task cur)).rdyThread cur)
        (Function.update pc cur (.pend 0)) Q := by
  have hpost : ∀ {t}, t ≠ cur → (D.task t).postIpc ≠ (D.task cur).postIpc :=
    fun ht he => ht (D.post _ _ he)
  refine h.start (Or.inr hpc) rfl (fun t => ?_) (fun t ht => ?_) ?_ ⟨fun s => ?_, h.queues.apart⟩
  · by_cases ht : t = cur
    · rw [ht, h.type cur]
      simp [dagDealHook, acoralSemInit, acoralIpcInit, IpcState.setIpc]
    · simp [dagDealHook, acoralSemInit, acoralIpcInit, IpcState.setIpc,
        Function.update_of_ne (hpost ht)]
  · simp [dagDealHook, acoralSemInit, acoralIpcInit, IpcState.setIpc,
      Function.update_of_ne (hpost ht)]
  · simp [dagDealHook, acoralSemInit, acoralIpcInit, IpcState.setIpc]
  · by_cases hs : s = (D.task cur).postIpc
    · rw [hs, hnobody]
      refine Lib.Links.isRing_nil ?_ ?_ <;>
        simp [dagDealHook, acoralSemInit, acoralIpcInit, acoralListInit, Lib.Links.setNext,
          Lib.Links.setPrev]
    · -- the other rings do not go through the head that is set up again
      have hframe : ∀ y ∈ (.head s : IpcNode Nat T) :: (Q s).map .pending,
          y ≠ .head (D.task cur).postIpc := by
        intro y hy he
        rw [he] at hy
        rcases List.mem_cons.mp hy with hy | hy
        · exact hs (IpcNode.head.inj hy).symm
        · obtain ⟨u, -, hu⟩ := List.mem_map.mp hy
          cases hu
      refine (h.queues.waits s).congr (fun y hy => ?_) fun y hy => ?_
      · simp [dagDealHook, acoralSemInit, acoralIpcInit, acoralListInit, IpcState.setIpc,
          Lib.Links.setNext, Lib.Links.setPrev, Function.update_of_ne (hframe y hy)]
      · simp [dagDealHook, acoralSemInit, acoralIpcInit, acoralListInit, IpcState.setIpc,
          Lib.Links.setNext, Lib.Links.setPrev, Function.update_of_ne (hframe y hy)]

end DagIpc

end ACoral
