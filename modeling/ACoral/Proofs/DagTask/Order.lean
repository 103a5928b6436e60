import ACoral.Lib.GuardedRun
import ACoral.Proofs.DagTask.Release
import ACoral.Proofs.DagTask.Semaphores
import ACoral.Proofs.PeriodThrd

/-!
# `ACoral.Proofs.DagTask.Order`: the nodes of a DAG run in the order of its edges

The threads of the DAGs, run by the tick interrupt on CPU 0 and by the scheduler on both
CPUs, are the nodes of `ACoral.Lib.Gates`: a step of the code is a step of the gates
(`dagStep_gates`). A round of the gates begins with the tick that ends a period. Its
news is the loop of `period_time_deal`, which reaches the threads in the order of their
creation.

`dag_order` is the result. It needs a DAG in which the nodes of the other CPU come
behind their predecessors in that order: such a node runs while the loop is still on its
way, and would find the semaphore of a later one as the last period left it. The nodes of
CPU 0 stand still until the loop is through.
-/

set_option autoImplicit false

namespace ACoral

open Lib (Gates GateInv GateStep InRounds Phase keys expiry Ordered run guarded)

variable {R A T : Type} [DecidableEq T]

/-! ### The period queue -/

/-- The ticks that a thread is added for. -/
def DagTasks.rearm (D : DagTasks T R A) (t : T) : Option Int := some (dagReload D.task t)

/-- Two threads of one period, `p` created first. -/
structure DagTasks.Paired (D : DagTasks T R A) (p t : T) : Prop where
  time : (D.task p).time = (D.task t).time
  order : [p, t].Sublist D.order

omit [DecidableEq T] in
/-- A thread is added for its period. -/
theorem dagReload_eq (task : T → DagThread R A) (t : T) :
    dagReload task t = (timeToTicks (BitVec.ofNat 32 (task t).time)).toNat :=
  toInt_timeToTicks _

omit [DecidableEq T] in
theorem DagTasks.Paired.rearm {D : DagTasks T R A} {p t : T} (h : D.Paired p t) :
    D.rearm p = D.rearm t := by
  unfold DagTasks.rearm
  rw [dagReload_eq, dagReload_eq, h.time]

omit [DecidableEq T] in
theorem DagTasks.rearms (D : DagTasks T R A) : Rearms D.rearm := by
  intro t tick htick
  cases htick
  rw [dagReload_eq]
  exact Int.natCast_pos.mpr (D.period t)

/-- The period queue when the threads `Z` have still to be released, and `rest` is the queue
without them. -/
structure DagQueue (D : DagTasks T R A) (Z : List T) (rest : List (T × Int)) : Prop where
  nodup : (Z ++ keys rest).Nodup
  ordered : Ordered rest
  waits : HeadWaits rest
  all : ∀ t, t ∈ Z ∨ t ∈ keys rest
  order : ∀ p t, D.Paired p t → p ∈ Z → t ∈ Z → [p, t].Sublist Z
  /-- when they have been released, threads of one period are together -/
  together : ∀ p t, D.Paired p t → Together (Z.foldl (readd D.rearm) rest) p t

/-- Two elements of a list come in one order or in the other. -/
theorem sublist_or_sublist {α : Type} {a b : α} {l : List α} (ha : a ∈ l) (hb : b ∈ l)
    (hne : a ≠ b) : [a, b].Sublist l ∨ [b, a].Sublist l := by
  induction l with
  | nil => cases ha
  | cons c l ih =>
      rcases List.mem_cons.mp ha with rfl | hal <;> rcases List.mem_cons.mp hb with rfl | hbl
      · exact absurd rfl hne
      · exact Or.inl ((List.singleton_sublist.mpr hbl).cons_cons _)
      · exact Or.inr ((List.singleton_sublist.mpr hal).cons_cons _)
      · exact (ih hal hbl).imp (fun h => h.cons c) fun h => h.cons c

namespace DagQueue

variable {D : DagTasks T R A} {Z : List T} {rest : List (T × Int)}

/-- Before the first thread is created. -/
theorem start (D : DagTasks T R A) : DagQueue D D.order [] where
  nodup := by simpa using D.nodup
  ordered := ⟨List.nodup_nil, fun _ h => absurd h List.not_mem_nil⟩
  waits := fun _ h => by cases h
  all t := Or.inl (D.all t)
  order _ _ h _ _ := h.order
  together p t h := by
    exact together_foldl_readd D.rearms rfl h.rearm.symm D.order [] (by simpa using D.nodup)
      ⟨List.nodup_nil, fun _ hn => absurd hn List.not_mem_nil⟩ h.order

/-- The first thread that is left is released. -/
theorem release {z : T} (h : DagQueue D (z :: Z) rest) :
    DagQueue D Z (readd D.rearm rest z) := by
  have hnd := h.nodup
  rw [List.cons_append, List.nodup_cons, List.mem_append, not_or] at hnd
  constructor
  case nodup => exact nodup_readd D.rearms h.nodup h.ordered
  case ordered => exact ordered_readd D.rearms h.ordered hnd.1.2
  case waits => exact headWaits_readd D.rearms h.waits z
  case all =>
    intro t
    by_cases ht : t = z
    · right
      rw [ht]
      exact (keys_acoralTickQueueAdd rest z _).mem_iff.mpr List.mem_cons_self
    · rw [mem_keys_readd ht]
      exact (h.all t).imp_left fun hin => (List.mem_cons.mp hin).resolve_left ht
  case order =>
    intro p t hpt hp ht
    have hpair := h.order p t hpt (List.mem_cons_of_mem z hp) (List.mem_cons_of_mem z ht)
    cases hpair with
    | cons _ hpair => exact hpair
    | cons_cons => exact absurd hp hnd.1.1
  case together => exact h.together

/-- Nobody created before a thread of the same period is behind it. -/
theorem head_first {p z : T} (h : DagQueue D (z :: Z) rest) (hpz : D.Paired p z) : p ∉ Z := by
  intro hp
  have hnd := (List.nodup_append.mp h.nodup).1
  rw [List.nodup_cons] at hnd
  have hpair := h.order p z hpz (List.mem_cons_of_mem z hp) List.mem_cons_self
  cases hpair with
  | cons _ hpair => exact hnd.1 (hpair.subset (by simp))
  | cons_cons => exact hnd.1 hp

/-- A tick: the threads that are due, and those that share a period with one of them, are the
same. -/
theorem tick {q : List (T × Int)} (h : DagQueue D [] q) :
    ∃ Z rest, tickCountDown q = Z.map (fun z => (z, 0)) ++ rest ∧ DagQueue D Z rest ∧
      ∀ p t, (D.task p).time = (D.task t).time → (p ∈ Z ↔ t ∈ Z) := by
  obtain ⟨Z, rest, hsplit, hnd, hord, hR, -⟩ := tickDeal_split D.rearms h.ordered
  have hdue : ∀ p t, D.Paired p t →
      (p ∈ Z ↔ t ∈ Z) ∧ (p ∈ Z → [p, t].Sublist Z) ∧ (p ∉ Z → Together rest p t) :=
    fun p t hpt => (h.together p t hpt).due h.ordered hsplit hnd hord hR
  have hkeys : keys q = Z ++ keys rest := by
    rw [← keys_tickCountDown q, hsplit, Lib.keys_append]
    simp [keys, Function.comp_def]
  refine ⟨Z, rest, hsplit, ⟨hnd, hord, hR, fun t => ?_, fun p t hpt hp _ => (hdue p t hpt).2.1 hp,
    fun p t hpt => ?_⟩, fun p t htime => ?_⟩
  · have hin := (h.all t).resolve_left List.not_mem_nil
    rwa [hkeys, List.mem_append] at hin
  · by_cases hp : p ∈ Z
    · exact together_foldl_readd D.rearms rfl hpt.rearm.symm Z rest hnd hord
        ((hdue p t hpt).2.1 hp)
    · exact ((hdue p t hpt).2.2 hp).foldl_readd D.rearms Z rest hnd hord
  · by_cases hne : p = t
    · rw [hne]
    · rcases sublist_or_sublist (D.all p) (D.all t) hne with horder | horder
      · exact (hdue p t ⟨htime, horder⟩).1
      · exact (hdue t p ⟨htime.symm, horder⟩).1.symm

end DagQueue

/-- The nodes of the other CPU come behind their predecessors. -/
def DagTasks.Forward (D : DagTasks T R A) : Prop :=
  ∀ t, (D.task t).cpu ≠ 0 → ∀ p ∈ D.before t, [p, t].Sublist D.order

/-! ### The code and the gates -/

/-- Where the code is, when the threads `Z` have still to be released. -/
inductive DagMode (D : DagTasks T R A) (r : DagRun T) (Z : List T) (rest : List (T × Int)) : Prop
  /-- the threads run, and those of `Z` have still to be created -/
  | threads (hdeal : r.deal = none) (htodo : r.todo = Z) (hqueue : r.periodTimeQueue = rest)
      (habsent : ∀ t ∈ Z, r.pc t = .absent)
  /-- the loop of `period_time_deal` is on its way -/
  | handler {tmp : Option T} (hdeal : r.deal = some tmp) (htodo : r.todo = [])
      (hqueue : r.periodTimeQueue = Z.map (fun z => (z, 0)) ++ rest)
      (htmp : ∀ z ∈ Z.head?, tmp = some z) (hstops : Z = [] → Stops rest tmp)
      (hdone : ∀ t ∈ Z, r.pc t = .done)
      (hlater : ∀ p t, p ∈ D.before t → (D.task t).cpu ≠ 0 → p ∈ Z → t ∈ Z)

/-- The threads `r` of the DAGs are the nodes `g`. -/
structure DagRel (D : DagTasks T R A) (r : DagRun T) (g : Gates T) : Prop where
  ipc : ∃ Q, DagIpc D r.ipc r.pc Q
  phase : ∀ t, g.phase t = (r.pc t).phase (r.ipc.isReady t)
  history : g.history = r.history
  queue : ∃ rest, DagQueue D g.behind rest ∧ DagMode D r g.behind rest

section Steps

variable {D : DagTasks T R A} {r r' : DagRun T} {g : Gates T}

/-- A thread goes to another place, and the node to the phase of that place. -/
theorem phase_goto {pc : T → DagPc} {ipc ipc' : IpcState Nat T} {cur : T} {place : DagPc}
    {phase : Phase} (h : ∀ t, g.phase t = (pc t).phase (ipc.isReady t))
    (hother : ∀ u, u ≠ cur → ipc'.isReady u = ipc.isReady u)
    (hself : phase = place.phase (ipc'.isReady cur)) (t : T) :
    (g.goto cur phase).phase t = (Function.update pc cur place t).phase (ipc'.isReady t) := by
  show Function.update g.phase cur phase t = _
  by_cases ht : t = cur
  · rw [ht, Function.update_self, Function.update_self]
    exact hself
  · rw [Function.update_of_ne ht, Function.update_of_ne ht, hother t ht]
    exact h t

/-- A thread that was not created, or has finished, is not READY. -/
theorem DagMode.notMem {Z : List T} {rest : List (T × Int)} (h : DagMode D r Z rest)
    {Q : Nat → List T} (hipc : DagIpc D r.ipc r.pc Q) {cur : T}
    (hready : r.ipc.isReady cur = true) : cur ∉ Z := by
  intro hin
  have hsleep : r.ipc.isReady cur = false := by
    cases h with
    | threads _ _ _ habsent => exact hipc.asleep cur (Or.inl (habsent cur hin))
    | handler _ _ _ _ _ hdone => exact hipc.asleep cur (Or.inr (hdone cur hin))
  rw [hready] at hsleep
  cases hsleep

/-- What a thread does leaves the loop where it is. -/
theorem DagMode.run {Z : List T} {rest : List (T × Int)} (h : DagMode D r Z rest) {cur : T}
    (hcur : cur ∉ Z) {place : DagPc} (hdeal : r'.deal = r.deal) (htodo : r'.todo = r.todo)
    (hqueue : r'.periodTimeQueue = r.periodTimeQueue)
    (hpc : r'.pc = Function.update r.pc cur place) : DagMode D r' Z rest := by
  have hkeep : ∀ t ∈ Z, r'.pc t = r.pc t := by
    intro t ht
    have hne : t ≠ cur := fun he => hcur (he ▸ ht)
    rw [hpc, Function.update_of_ne hne]
  cases h with
  | threads hd ht hq habsent =>
      exact .threads (hdeal.trans hd) (htodo.trans ht) (hqueue.trans hq)
        fun t hin => (hkeep t hin).trans (habsent t hin)
  | handler hd ht hq htmp hstops hdone hlater =>
      exact .handler (hdeal.trans hd) (htodo.trans ht) (hqueue.trans hq) htmp hstops
        (fun t hin => (hkeep t hin).trans (hdone t hin)) hlater

/-- A node that runs may move: in the handler it is one of the other CPU, so that those before
it have been released. -/
theorem DagRel.mayMove (h : DagRel D r g) {cur : T} (hready : r.ipc.isReady cur = true)
    (hcpu : r.deal = none ∨ (D.task cur).cpu ≠ 0) : g.MayMove D.before cur := by
  obtain ⟨Q, hipc⟩ := h.ipc
  obtain ⟨rest, -, hmode⟩ := h.queue
  intro p hp hpb
  have hcur := hmode.notMem hipc hready
  cases hmode with
  | threads _ _ _ habsent =>
      rw [h.phase p, habsent p hpb]
      rfl
  | handler hdeal _ _ _ _ _ hlater =>
      rcases hcpu with hnone | hcpu
      · rw [hnone] at hdeal
        cases hdeal
      · exact absurd (hlater p cur hp hcpu hpb) hcur

/-- The next thread is created. -/
theorem DagRel.create (h : DagRel D r g) (hdeal : r.deal = none)
    (hstep : dagCreate D.task r = some r') : ∃ g', GateStep D.before g g' ∧ DagRel D r' g' := by
  obtain ⟨Q, hipc⟩ := h.ipc
  obtain ⟨rest, hqueue, hmode⟩ := h.queue
  cases hmode with
  | handler hd => rw [hdeal] at hd; cases hd
  | threads _ htodo hq habsent =>
      unfold dagCreate at hstep
      rw [htodo] at hstep
      cases hbehind : g.behind with
      | nil => rw [hbehind] at hstep; cases hstep
      | cons t todo =>
          rw [hbehind] at hstep hqueue habsent
          obtain rfl := Option.some.inj hstep
          have hpc : r.pc t = .absent := habsent t List.mem_cons_self
          obtain ⟨hready, hipc'⟩ := hipc.create hpc
          have hnotin : t ∉ todo :=
            (List.nodup_cons.mp (List.nodup_append.mp hqueue.nodup).1).1
          refine ⟨_, .release hbehind (Or.inl (by rw [h.phase t, hpc]; rfl)), ⟨Q, hipc'⟩,
            phase_goto h.phase (fun u hu => by rw [hready, if_neg hu]) rfl, h.history, _,
            hqueue.release, .threads hdeal rfl ?_ fun s hs => ?_⟩
          · show acoralTickQueueAdd r.periodTimeQueue t _ = _
            rw [hq]
            rfl
          · have hne : s ≠ t := fun he => hnotin (he ▸ hs)
            show Function.update r.pc t _ s = _
            rw [Function.update_of_ne hne]
            exact habsent s (List.mem_cons_of_mem t hs)

omit [DecidableEq T] in
/-- The threads that are due are those in front. -/
theorem takeWhile_due {Z : List T} {rest : List (T × Int)} (hR : HeadWaits rest) :
    ((Z.map (fun z => (z, (0 : Int))) ++ rest).takeWhile fun node => node.2 ≤ 0).map Prod.fst =
      Z := by
  induction Z with
  | nil =>
      cases rest with
      | nil => rfl
      | cons node rest =>
          have hpos : ¬ node.2 ≤ 0 := Int.not_le.mpr (hR node rfl)
          simp [hpos]
  | cons z Z ih => simpa using ih

/-- The tick interrupt. -/
theorem DagRel.tick (h : DagRel D r g) (hdeal : r.deal = none)
    (htime : dagInTime r .tick = true) :
    ∃ g', GateStep D.before g g' ∧ DagRel D (dagTick r) g' := by
  obtain ⟨rest, hqueue, hmode⟩ := h.queue
  obtain ⟨htodo, hdue⟩ : r.todo = [] ∧ ∀ t ∈ dagDue r, r.pc t = .done := by
    simpa [dagInTime] using htime
  cases hmode with
  | handler hd => rw [hdeal] at hd; cases hd
  | threads _ htodo' hq _ =>
      have hbehind : g.behind = [] := htodo'.symm.trans htodo
      rw [hbehind] at hqueue
      obtain ⟨Z, rest', hsplit, hqueue', hsame⟩ := hqueue.tick
      have hdone : ∀ t ∈ Z, r.pc t = .done := by
        intro t ht
        refine hdue t ?_
        unfold dagDue
        rwa [hq, hsplit, takeWhile_due hqueue'.waits]
      refine ⟨_, .round hbehind (List.nodup_append.mp hqueue'.nodup).1
        (fun t ht => by rw [h.phase t, hdone t ht]; rfl)
        fun p t hp => hsame p t (D.time t p hp), h.ipc, h.phase, h.history, rest', hqueue',
        .handler rfl htodo ?_ (fun z hz => ?_) (fun hnil => ?_) hdone
          fun p t hp _ hin => (hsame p t (D.time t p hp)).mp hin⟩
      · show tickCountDown r.periodTimeQueue = _
        rw [hq]
        exact hsplit
      · show (tickCountDown r.periodTimeQueue).head?.map Prod.fst = some z
        rw [hq, hsplit]
        cases Z with
        | nil => cases hz
        | cons y Z => simpa using hz
      · have hnil : Z = [] := hnil
        rw [hq, hsplit, hnil]
        intro t ht
        cases rest' with
        | nil => cases ht
        | cons node rest' =>
            have hpos : 0 < node.2 := hqueue'.waits node rfl
            obtain rfl : node.1 = t := Option.some.inj ht
            simpa [nodeValue] using hpos

/-- One round of the loop of `period_time_deal`. -/
theorem DagRel.deal (h : DagRel D r g) (hinv : GateInv D.before g) (hforward : D.Forward)
    {tmp : Option T} (hdeal : r.deal = some tmp) :
    ∃ g', (g' = g ∨ GateStep D.before g g') ∧ DagRel D (dagDeal D.task r tmp) g' := by
  obtain ⟨Q, hipc⟩ := h.ipc
  obtain ⟨rest, hqueue, hmode⟩ := h.queue
  cases hmode with
  | threads hd => rw [hdeal] at hd; cases hd
  | @handler tmp' hd htodo hq htmp hstops hdone hlater =>
  obtain rfl : tmp = tmp' := Option.some.inj (hdeal.symm.trans hd)
  cases hbehind : g.behind with
  | nil =>
      -- nobody else is due
      rw [hbehind] at hqueue hq
      have hstop : dagDeal D.task r tmp = { r with deal := none } := by
        cases tmp with
        | none => rfl
        | some t =>
            have hvalue : 0 < nodeValue r.periodTimeQueue t := by
              rw [hq]
              exact hstops hbehind t rfl
            exact if_pos hvalue
      rw [hstop]
      refine ⟨g, Or.inl rfl, ⟨Q, hipc⟩, h.phase, h.history, rest, ?_, ?_⟩
      · rw [hbehind]
        exact hqueue
      · rw [hbehind]
        exact .threads rfl htodo hq fun t ht => absurd ht List.not_mem_nil
  | cons z Z =>
      rw [hbehind] at hqueue hq htmp hdone hlater
      obtain rfl : tmp = some z := htmp z rfl
      have hnd := hqueue.nodup
      rw [List.cons_append, List.nodup_cons, List.mem_append, not_or] at hnd
      have hpc : r.pc z = .done := hdone z List.mem_cons_self
      have hfree : g.phase z = .free := by rw [h.phase z, hpc]; rfl
      -- nobody waits for its semaphore
      have hnobody : Q (D.task z).postIpc = [] := by
        refine List.eq_nil_iff_forall_not_mem.mpr fun t ht => ?_
        obtain ⟨i, p, hi, hgate, hpost⟩ := (hipc.waits t _).mp ht
        obtain rfl := D.post _ _ hpost
        obtain ⟨hblocked, hwoken⟩ := hinv.no_waiter (hbehind ▸ List.mem_cons_self) hfree hgate
        have hphase := h.phase t
        rw [hi] at hphase
        cases hr : r.ipc.isReady t <;> rw [hr] at hphase
        · exact hblocked hphase
        · exact hwoken hphase
      obtain ⟨hready, hipc'⟩ := hipc.release hpc hnobody
      have hsusp : r.ipc.isSuspended z = true := by
        rw [hipc.flags z, hipc.asleep z (Or.inr hpc)]
        rfl
      have hvalue : nodeValue r.periodTimeQueue z = 0 := by
        rw [hq]
        simp [nodeValue]
      have hdel : acoralTickQueueDel r.periodTimeQueue z = Z.map (fun z => (z, 0)) ++ rest := by
        rw [hq]
        simp [acoralTickQueueDel]
      have hnext : nodeNext r.periodTimeQueue z = (Z ++ keys rest).head? := by
        rw [hq]
        cases Z with
        | nil => simp [nodeNext, keys]
        | cons y Z => simp [nodeNext]
      have hdealt : dagDeal D.task r (some z) =
          { r with
            ipc := (dagDealHook r.ipc (D.task z)).rdyThread z
            pc := Function.update r.pc z (.pend 0)
            periodTimeQueue := Z.map (fun z => (z, 0)) ++ readd D.rearm rest z
            deal := some (Z ++ keys rest).head? } := by
        unfold dagDeal dagRelease
        dsimp only
        rw [if_neg (by rw [hvalue]; decide), if_pos hsusp, hdel, hnext,
          ← readd_due D.rearm D.rearms]
        rfl
      rw [hdealt]
      refine ⟨_, Or.inr (.release hbehind (Or.inr hfree)), ⟨Q, hipc'⟩,
        phase_goto h.phase (fun u hu => by rw [hready, if_neg hu]) rfl, h.history, _,
        hqueue.release, .handler rfl htodo rfl (fun y hy => ?_) (fun hnil => ?_) (fun t ht => ?_)
          fun p t hp hcpu hin => ?_⟩
      · cases Z with
        | nil => cases hy
        | cons x Z => exact hy
      · have hnil : Z = [] := hnil
        rw [hnil]
        exact stops_readd D.rearm hqueue.waits hnd.1.2
      · have hne : t ≠ z := fun he => hnd.1.1 (he ▸ ht)
        show Function.update r.pc z _ t = _
        rw [Function.update_of_ne hne]
        exact hdone t (List.mem_cons_of_mem z ht)
      · -- a thread of the other CPU is not released before its predecessors
        rcases List.mem_cons.mp (hlater p t hp hcpu (List.mem_cons_of_mem z hin)) with rfl | ht
        · exact absurd hin (hqueue.head_first ⟨D.time t p hp, hforward t hcpu p hp⟩)
        · exact ht

omit [DecidableEq T] in
/-- The call of `acoral_sem_pends` for place `i`. -/
theorem DagTasks.pendIpc_eq (D : DagTasks T R A) {t : T} {i : Nat} :
    (D.task t).pendIpc[i]?.join = (D.before t)[i]?.map fun p => (D.task p).postIpc := by
  rw [D.wired t, List.getElem?_map]
  cases (D.before t)[i]? <;> rfl

/-- A thread goes on. -/
theorem DagRel.run (h : DagRel D r g) (hinv : GateInv D.before g) {fuel : Nat} {cur : T}
    (hready : r.ipc.isReady cur = true) (hcpu : r.deal = none ∨ (D.task cur).cpu ≠ 0)
    (hstep : dagTask fuel D.task r cur = some r') :
    ∃ g', (g' = g ∨ GateStep D.before g g') ∧ DagRel D r' g' := by
  obtain ⟨Q, hipc⟩ := h.ipc
  obtain ⟨rest, hqueue, hmode⟩ := h.queue
  have hcur := hmode.notMem hipc hready
  have hphase := h.phase cur
  have hmay := h.mayMove hready hcpu
  unfold dagTask at hstep
  cases hpc : r.pc cur with
  | absent => rw [hpc] at hstep; cases hstep
  | done => rw [hpc] at hstep; cases hstep
  | pend i =>
      have hrunning : (r.pc cur).running = true := by rw [hpc]; rfl
      rw [hpc] at hstep hphase
      have hbound := hinv.bound cur
      rw [hphase] at hbound
      dsimp only at hstep
      split at hstep
      case isTrue hi =>
        obtain ⟨p, hgate⟩ := D.gate hi
        rw [D.pendIpc_eq, hgate, Option.map_some, Option.bind_some] at hstep
        have hopen := DagPc.phase_eq_free (r.ipc.isReady p) (r.pc p)
        rw [← h.phase p] at hopen
        obtain ⟨res, hres, rfl⟩ := Option.map_eq_some_iff.mp hstep
        cases hposted : (r.pc p).posted with
        | true =>
            rw [hipc.pass fuel cur hposted] at hres
            obtain rfl := Option.some.inj hres
            exact ⟨_, Or.inr (.pass hmay hphase hgate (hopen.mpr hposted)),
              ⟨Q, hipc.goto hrunning rfl⟩, phase_goto h.phase (fun _ _ => rfl) rfl, h.history,
              rest, hqueue, hmode.run hcur rfl rfl rfl rfl⟩
        | false =>
            rw [hipc.block_eq fuel cur hposted] at hres
            obtain ⟨hblocked, hflag, Q', hipc'⟩ := hipc.block hpc hgate hres
            rw [hblocked]
            have hshut : g.phase p ≠ .free := fun he => by
              rw [hopen, hposted] at he
              cases he
            refine ⟨_, Or.inr (.block hmay hphase hgate hshut), ⟨Q', hipc'⟩,
              phase_goto h.phase (fun u hu => by rw [hflag, if_neg hu]) ?_, h.history,
              rest, hqueue, hmode.run hcur rfl rfl rfl rfl⟩
            show _ = DagPc.phase (res.2.isReady cur) (.pends i)
            rw [hflag, if_pos rfl]
            rfl
      case isFalse hi =>
        rw [D.count] at hi
        obtain rfl := Option.some.inj hstep
        have hlen : i = (D.before cur).length := Nat.le_antisymm hbound (Nat.le_of_not_lt hi)
        refine ⟨_, Or.inr (.work (hphase.trans (by rw [hlen]; rfl))), ⟨Q, hipc.goto hrunning rfl⟩,
          phase_goto h.phase (fun _ _ => rfl) rfl, congrArg _ h.history, rest, hqueue,
          hmode.run hcur rfl rfl rfl rfl⟩
  | pends i =>
      rw [hpc] at hstep hphase
      rw [hready] at hphase
      have hbound := hinv.bound cur
      rw [hphase] at hbound
      obtain ⟨p, hgate⟩ : ∃ p, (D.before cur)[i]? = some p :=
        ⟨_, List.getElem?_eq_getElem hbound⟩
      obtain ⟨res, hres, rfl⟩ := Option.map_eq_some_iff.mp hstep
      obtain ⟨hflag, Q', hipc'⟩ := hipc.resume hpc hgate hready hres
      exact ⟨_, Or.inr (.resume hphase), ⟨Q', hipc'⟩,
        phase_goto h.phase (fun u _ => hflag u) rfl, h.history, rest, hqueue,
        hmode.run hcur rfl rfl rfl rfl⟩
  | route =>
      have hrunning : (r.pc cur).running = true := by rw [hpc]; rfl
      rw [hpc] at hstep hphase
      obtain rfl := Option.some.inj hstep
      exact ⟨_, Or.inr (.leave hphase), ⟨Q, hipc.goto hrunning rfl⟩,
        phase_goto h.phase (fun _ _ => rfl) rfl, congrArg _ h.history, rest, hqueue,
        hmode.run hcur rfl rfl rfl rfl⟩
  | post =>
      rw [hpc] at hstep hphase
      obtain ⟨res, hres, rfl⟩ := Option.map_eq_some_iff.mp hstep
      obtain ⟨hflag, hipc'⟩ := hipc.posts hpc hres
      refine ⟨_, Or.inr (.openGate hphase), ⟨Q, hipc'⟩, fun t => ?_, h.history, rest, hqueue,
        hmode.run hcur rfl rfl rfl rfl⟩
      show Function.update (fun s => (g.phase s).wake D.before cur s) cur .free t =
        (Function.update r.pc cur _ t).phase (res.2.isReady t)
      by_cases ht : t = cur
      · rw [ht, Function.update_self, Function.update_self]
        rfl
      · rw [Function.update_of_ne ht, Function.update_of_ne ht, h.phase t, hflag t]
        -- those in the queue are blocked at this gate, or woken already
        cases hpt : r.pc t with
        | pends i =>
            have hin : t ∈ Q (D.task cur).postIpc ↔ (D.before t)[i]? = some cur := by
              rw [hipc.waits t]
              constructor
              · rintro ⟨j, q, hj, hgate, hpost⟩
                rw [hpt] at hj
                cases hj
                rw [hgate, D.post _ _ hpost]
              · exact fun hgate => ⟨i, cur, hpt, hgate, rfl⟩
            cases hr : r.ipc.isReady t
            · by_cases hgate : (D.before t)[i]? = some cur
              · simp [DagPc.phase, Phase.wake, hgate, hin.mpr hgate]
              · simp [DagPc.phase, Phase.wake, hgate, mt hin.mp hgate]
            · rfl
        | _ => rfl
  | exit =>
      rw [hpc] at hstep hphase
      obtain rfl := Option.some.inj hstep
      obtain ⟨hflag, hipc'⟩ := hipc.suspend hpc
      refine ⟨g, Or.inl rfl, ⟨Q, hipc'⟩, fun t => ?_, h.history, rest, hqueue,
        hmode.run hcur rfl rfl rfl rfl⟩
      show g.phase t = (Function.update r.pc cur _ t).phase ((r.ipc.suspendSelf cur).isReady t)
      by_cases ht : t = cur
      · rw [ht, Function.update_self]
        exact hphase
      · rw [Function.update_of_ne ht, hflag t, if_neg ht]
        exact h.phase t

/-- A step of the code is a step of the gates, or none. -/
theorem dagStep_gates (h : DagRel D r g) (hinv : GateInv D.before g) (hforward : D.Forward)
    {fuel : Nat} {op : DagOp T} (htime : dagInTime r op = true)
    (hstep : dagStep fuel D.task r op = some r') :
    ∃ g', (g' = g ∨ GateStep D.before g g') ∧ DagRel D r' g' := by
  cases op with
  | create =>
      obtain ⟨hdeal, hstep⟩ := Option.ite_none_right_eq_some.mp hstep
      obtain ⟨g', hg, hrel⟩ := h.create hdeal hstep
      exact ⟨g', Or.inr hg, hrel⟩
  | tick =>
      obtain ⟨hdeal, hstep⟩ := Option.ite_none_right_eq_some.mp hstep
      obtain rfl := Option.some.inj hstep
      obtain ⟨g', hg, hrel⟩ := h.tick hdeal htime
      exact ⟨g', Or.inr hg, hrel⟩
  | deal =>
      obtain ⟨tmp, hdeal, rfl⟩ := Option.map_eq_some_iff.mp hstep
      exact h.deal hinv hforward hdeal
  | run thread =>
      obtain ⟨⟨hready, hcpu⟩, hstep⟩ := Option.ite_none_right_eq_some.mp hstep
      exact h.run hinv hready hcpu hstep

end Steps

/-! ### Runs -/

/-- The threads and semaphores as `acoral_dag_to_thread` finds them: the threads that it takes
are SUSPEND, and `acoral_sem_create` has set up the semaphores. -/
structure DagFresh (task : T → DagThread R A) (ipc : IpcState Nat T) : Prop where
  asleep : ∀ t, ipc.isReady t = false ∧ ipc.isSuspended t = true
  sem : ∀ t, (ipc.ipc (task t).postIpc).type = .ACORAL_IPC_SEM ∧
    (ipc.ipc (task t).postIpc).count = 1
  waits : ∀ s, ipc.Waits s []

/-- A run in which no period overruns. -/
def DagReaches (fuel : Nat) (task : T → DagThread R A) (ipc : IpcState Nat T) (order : List T)
    (ops : List (DagOp T)) (r : DagRun T) : Prop :=
  run (guarded dagInTime (dagStep fuel task)) (DagRun.start ipc order) ops = some r

/-- The invariant of the runs in which no period overruns. -/
def DagInv (D : DagTasks T R A) (r : DagRun T) : Prop :=
  ∃ g, DagRel D r g ∧ GateInv D.before g

theorem DagFresh.inv {D : DagTasks T R A} {ipc : IpcState Nat T} (h : DagFresh D.task ipc) :
    DagInv D (DagRun.start ipc D.order) := by
  have hipc : DagIpc D ipc (fun _ => .absent) fun _ => [] := by
    constructor
    case flags =>
      intro t
      rw [(h.asleep t).1, (h.asleep t).2]
      rfl
    case asleep => exact fun t _ => (h.asleep t).1
    case awake => exact fun t ht => by rcases ht with ht | ht <;> cases ht
    case type => exact fun t => (h.sem t).1
    case count => exact fun t => (h.sem t).2
    case queues => exact ⟨h.waits, fun _ _ _ ht => absurd ht List.not_mem_nil⟩
    case waits =>
      intro t s
      refine iff_of_false List.not_mem_nil ?_
      rintro ⟨i, p, hi, -⟩
      cases hi
  exact ⟨⟨fun _ => .shut, D.order, []⟩,
    ⟨⟨_, hipc⟩, fun _ => rfl, rfl, [], DagQueue.start D, .threads rfl rfl rfl fun _ _ => rfl⟩,
    GateInv.start D.nodup D.all⟩

/-- A run keeps the invariant. -/
theorem DagReaches.inv {D : DagTasks T R A} (hforward : D.Forward) {fuel : Nat}
    {ipc : IpcState Nat T} (hfresh : DagFresh D.task ipc) {ops : List (DagOp T)} {r : DagRun T}
    (h : DagReaches fuel D.task ipc D.order ops r) : DagInv D r := by
  refine Lib.guarded_induct (fun s op s' hs hguard hstep => ?_) hfresh.inv h
  obtain ⟨g, hrel, hinv⟩ := hs
  obtain ⟨g', hg, hrel'⟩ := dagStep_gates hrel hinv hforward hguard hstep
  refine ⟨g', hrel', ?_⟩
  rcases hg with rfl | hg
  · exact hinv
  · exact hg.inv hinv

/-- The nodes run in rounds, and a node that runs finds those before it through with its round
and at rest. -/
theorem DagInv.inRounds {D : DagTasks T R A} {r : DagRun T} (h : DagInv D r) :
    InRounds (fun p t => p ∈ D.before t) r.history ∧
      ∀ p t, p ∈ D.before t → r.pc t = .route →
        r.pc p ≠ .route ∧ Lib.finished r.history p = Lib.begun r.history t := by
  obtain ⟨g, hrel, hinv⟩ := h
  have hbegun := hinv.begun
  have hrounds := hinv.rounds
  rw [hrel.history] at hbegun hrounds
  refine ⟨hrounds, fun p t hp ht => ?_⟩
  have hrunning : Lib.begun r.history t = Lib.finished r.history t + 1 := by
    rw [hbegun t, hrel.phase t, ht]
    rfl
  obtain ⟨hb, hf⟩ := hrounds.alone hp hrunning
  refine ⟨fun hroute => ?_, hf⟩
  have hboth := hbegun p
  rw [hrel.phase p, hroute] at hboth
  simp only [DagPc.phase, if_true] at hboth
  omega

end ACoral
