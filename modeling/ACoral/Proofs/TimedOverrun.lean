import ACoral.Proofs.TimedThrd

/-!
# `ACoral.Proofs.TimedOverrun`: one overrun and the other timed threads

`timed_error` is set once for the whole call of `timed_time_deal`. After an
overrun it keeps every thread that is taken later in the same tick, on both
CPUs, from being started again. `overrun_isolated` compares two executions that
differ in the overruns of one thread `v`. As long as no thread is at the end of
its run while `timed_error` is set, and `v` overruns in its last section, all
threads are delivered, restarted and stopped alike.

* `twinStep` runs the two executions side by side. They create the same threads
  and tick together. In between, the threads come to wait for the same
  semaphores.
* At a tick the CPUs run the same threads, but where `v` still runs in the
  second execution, which in the first runs a thread that is not timed.
-/

set_option autoImplicit false

namespace ACoral

open Lib (keys run guarded)

variable {T : Type} [DecidableEq T]

/-! ### Two executions -/

/-- One step of the two executions. -/
inductive TwinOp (T : Type) where
  | create (thread : T) (policyData : TimedPolicyData)
  | tick
  | env (sched sched' : Sched T) (ipc : T → Option TimedWait) (runningThread runningThread' : Nat → T)

def twinStep (s : TimedState T × TimedState T) : TwinOp T → Option (TimedState T × TimedState T)
  | .create thread policyData                          =>
      (timedStep s.1 (.create thread policyData)).bind fun x =>
        (timedStep s.2 (.create thread policyData)).map fun y => (x, y)
  | .tick                                              =>
      (timedStep s.1 .tick).bind fun x => (timedStep s.2 .tick).map fun y => (x, y)
  | .env sched sched' ipc runningThread runningThread' =>
      (timedStep s.1 (.env sched ipc runningThread)).bind fun x =>
        (timedStep s.2 (.env sched' ipc runningThread')).map fun y => (x, y)

/-- On a CPU the executions run the same thread, or `v` overruns in the second
one. -/
def RunsTwin (v : T) (x y : TimedState T) (cpu : Nat) : Prop :=
  x.runningThread cpu = y.runningThread cpu ∨
    (y.runningThread cpu = v ∧ x.created (x.runningThread cpu) = none)

instance (v : T) (x y : TimedState T) (cpu : Nat) : Decidable (RunsTwin v x y cpu) :=
  inferInstanceAs (Decidable (_ ∨ _))

/-- The executions differ in the overruns of `v`, and in nothing else. -/
def differIn (v : T) (s : TimedState T × TimedState T) : TwinOp T → Bool
  | .tick          => decide (∀ cpu < CFG_MAX_CPU, RunsTwin v s.1 s.2 cpu)
  | .create _ _    => true
  | .env _ _ _ _ _ => true

/-! ### What keeps the overruns of one thread from the others -/

/-- In front of a thread that is due: when `v` overruns now, it is in its last
section, and when `timed_error` is set, the thread waits in front of a
section. -/
def popIsolated (v : T) (cpu : Nat) (d : TimedDeal T) (thread : T) : Bool :=
  decide ((d.state.lastTimedThread cpu = some v ∧ d.state.runningThread cpu = v →
      (d.state.privateData v).sectn = (d.state.privateData v).sectionNum + 1) ∧
    ((timedStop cpu d).timedError = true → d.state.ipc thread ≠ none))

/-- The same for every thread that the loop takes. -/
def loopIsolated (v : T) (cpu : Nat) :
    (fuel : Nat) → TimedDeal T → List (T × Int) → (tmp : Option T) → Bool
  | 0,        _, _,     _      => true
  | _ + 1,    _, _,     none   => true
  | fuel + 1, d, queue, some t =>
      if nodeValue queue t > 0 then true
      else
        popIsolated v cpu d t && (timedPop cpu d t).all fun (d, rearm) =>
          loopIsolated v cpu fuel d (timedRequeue queue t rearm) (nodeNext queue t)

def cpuIsolated (v : T) (d : TimedDeal T) (cpu : Nat) : Bool :=
  let queue := tickCountDown (d.state.timedTimeQueue cpu)
  loopIsolated v cpu (timedFuel queue) d queue (queue.head?.map Prod.fst)

def cpusIsolated (v : T) : TimedDeal T → List Nat → Bool
  | _, []          => true
  | d, cpu :: cpus =>
      cpuIsolated v d cpu && (timedCpuDeal d cpu).all fun d => cpusIsolated v d cpus

/-- The same for every thread that a tick takes. -/
def isolated (v : T) (x : TimedState T) : TwinOp T → Bool
  | .tick          => cpusIsolated v ⟨x, false, []⟩ (List.range CFG_MAX_CPU)
  | .create _ _    => true
  | .env _ _ _ _ _ => true

/-! ### The relation of the executions -/

/-- The events of a tick but for the overruns of `v`. -/
def withoutOverrun (v : T) (es : List (TimedEvent T)) : List (TimedEvent T) :=
  es.filter fun e => e ≠ .overrun v

theorem withoutOverrun_append (v : T) (es es' : List (TimedEvent T)) :
    withoutOverrun v (es ++ es') = withoutOverrun v es ++ withoutOverrun v es' :=
  List.filter_append ..

/-- A log but for the overruns of `v`. -/
def logWithoutOverrun (v : T) (log : List (Nat × List (TimedEvent T))) :
    List (Nat × List (TimedEvent T)) :=
  log.map fun entry => (entry.1, withoutOverrun v entry.2)

/-- The executions agree on the timed threads. -/
structure Twin (v : T) (x y : TimedState T) : Prop where
  queue : y.timedTimeQueue = x.timedTimeQueue
  time : y.time = x.time
  privateData : y.privateData = x.privateData
  ipc : y.ipc = x.ipc
  last : y.lastTimedThread = x.lastTimedThread
  now : y.now = x.now
  created : y.created = x.created
  log : logWithoutOverrun v y.log = logWithoutOverrun v x.log

/-- Only threads that were created are in the queues or noted as the last. -/
structure Owned (x : TimedState T) : Prop where
  queue : ∀ cpu, ∀ t ∈ keys (x.timedTimeQueue cpu), x.created t ≠ none
  last : ∀ cpu t, x.lastTimedThread cpu = some t → x.created t ≠ none

/-- The two deals of one tick. The second has seen every overrun of the first. -/
structure DealTwin (v : T) (dx dy : TimedDeal T) : Prop where
  state : Twin v dx.state dy.state
  running : ∀ cpu < CFG_MAX_CPU, RunsTwin v dx.state dy.state cpu
  last : ∀ cpu t, dx.state.lastTimedThread cpu = some t → dx.state.created t ≠ none
  error : dx.timedError = true → dy.timedError = true
  events : withoutOverrun v dy.events = withoutOverrun v dx.events

namespace DealTwin

variable {v t : T} {dx dy : TimedDeal T} {cpu : Nat}

/-! ### The branches of the loop -/

/-- A thread overruns in both executions. -/
theorem overrun (h : DealTwin v dx dy) (t : T) :
    DealTwin v (timedOverrun dx t) (timedOverrun dy t) where
  state :=
    { queue := h.state.queue
      time := h.state.time
      privateData := by simp only [timedOverrun, h.state.privateData]
      ipc := h.state.ipc
      last := h.state.last
      now := h.state.now
      created := h.state.created
      log := h.state.log }
  running := h.running
  last := h.last
  error := fun _ => rfl
  events := by simp only [timedOverrun, withoutOverrun_append, h.events]

/-- `v` overruns in the second execution, in its last section: the table goes on
as it would have. -/
theorem overrun_right (h : DealTwin v dx dy)
    (hsect : (dy.state.privateData v).sectn = (dy.state.privateData v).sectionNum + 1) :
    DealTwin v dx (timedOverrun dy v) where
  state :=
    { queue := h.state.queue
      time := h.state.time
      privateData := by
        have hdata : { dy.state.privateData v with
            sectn := (dy.state.privateData v).sectionNum + 1 } = dy.state.privateData v := by
          rw [← hsect]
        show Function.update dy.state.privateData v _ = _
        rw [hdata, Function.update_eq_self, h.state.privateData]
      ipc := h.state.ipc
      last := h.state.last
      now := h.state.now
      created := h.state.created
      log := h.state.log }
  running := h.running
  last := h.last
  error := fun _ => rfl
  events := by
    have hself : withoutOverrun v [TimedEvent.overrun v] = [] := by simp [withoutOverrun]
    simp only [timedOverrun, withoutOverrun_append, hself, List.append_nil, h.events]

theorem stop (h : DealTwin v dx dy) (hcpu : cpu < CFG_MAX_CPU)
    (hsect : dy.state.lastTimedThread cpu = some v ∧ dy.state.runningThread cpu = v →
      (dy.state.privateData v).sectn = (dy.state.privateData v).sectionNum + 1) :
    DealTwin v (timedStop cpu dx) (timedStop cpu dy) := by
  have hlast : dy.state.lastTimedThread cpu = dx.state.lastTimedThread cpu := by rw [h.state.last]
  unfold timedStop
  rcases h.running cpu hcpu with hsame | ⟨hv, hnone⟩
  · rw [← hlast, ← hsame]
    split
    · exact h.overrun _
    · exact h
  · -- the thread that runs in the first execution is no timed thread
    have hx : dx.state.lastTimedThread cpu ≠ some (dx.state.runningThread cpu) :=
      fun he => h.last cpu _ he hnone
    rw [if_neg hx]
    split
    case isTrue hy =>
      rw [hv] at hy ⊢
      exact h.overrun_right (hsect ⟨hy, hv⟩)
    case isFalse => exact h

theorem setLast (h : DealTwin v dx dy) (cpu : Nat) (ht : dx.state.created t ≠ none) :
    DealTwin v (dx.setLast cpu t) (dy.setLast cpu t) where
  state :=
    { queue := h.state.queue
      time := h.state.time
      privateData := h.state.privateData
      ipc := h.state.ipc
      last := by simp only [TimedDeal.setLast, h.state.last]
      now := h.state.now
      created := h.state.created
      log := h.state.log }
  running := h.running
  last c u hu := by
    by_cases hc : c = cpu
    · subst hc
      have hu : Function.update dx.state.lastTimedThread c (some t) c = some u := hu
      rw [Function.update_self] at hu
      exact Option.some.inj hu ▸ ht
    · have hu : Function.update dx.state.lastTimedThread cpu (some t) c = some u := hu
      rw [Function.update_of_ne hc] at hu
      exact h.last c u hu
  error := h.error
  events := h.events

theorem post (h : DealTwin v dx dy) (t : T) : DealTwin v (timedPost dx t) (timedPost dy t) where
  state :=
    { queue := h.state.queue
      time := h.state.time
      privateData := by simp only [timedPost, h.state.privateData]
      ipc := by simp only [timedPost, h.state.privateData, h.state.ipc]
      last := h.state.last
      now := h.state.now
      created := h.state.created
      log := h.state.log }
  running := h.running
  last := h.last
  error := h.error
  events := by simp only [timedPost, withoutOverrun_append, h.state.privateData, h.events]

theorem restart (h : DealTwin v dx dy) (t : T) :
    DealTwin v (timedRestart dx t) (timedRestart dy t) where
  state :=
    { queue := h.state.queue
      time := by simp only [timedRestart, h.state.privateData, h.state.time]
      privateData := by simp only [timedRestart, h.state.privateData]
      ipc := h.state.ipc
      last := h.state.last
      now := h.state.now
      created := h.state.created
      log := h.state.log }
  running := h.running
  last := h.last
  error := h.error
  events := by simp only [timedRestart, withoutOverrun_append, h.state.privateData, h.events]

theorem due (h : DealTwin v dx dy) (t : T)
    (herror : dy.timedError = true → dy.state.ipc t ≠ none) :
    DealTwin v (timedDue dx t) (timedDue dy t) := by
  unfold timedDue
  rw [h.state.ipc, h.state.privateData]
  cases hipc : dx.state.ipc t with
  | some wait =>
      dsimp only
      split
      · exact h.post t
      · exact h
  | none =>
      -- no overrun was seen, so that both start the next run
      have hy : dy.timedError = false := by
        cases he : dy.timedError with
        | false => rfl
        | true => exact absurd (h.state.ipc ▸ hipc) (herror he)
      have hx : dx.timedError = false := by
        cases he : dx.timedError with
        | false => rfl
        | true => exact absurd (h.error he) (by rw [hy]; exact Bool.false_ne_true)
      dsimp only
      rw [hx, hy, if_neg Bool.false_ne_true, if_neg Bool.false_ne_true]
      exact h.restart t

theorem reload (h : DealTwin v dx dy) {t : T} {dx' : TimedDeal T} {rearm : Option Int}
    (hx : timedReload dx t = some (dx', rearm)) :
    ∃ dy', timedReload dy t = some (dy', rearm) ∧ DealTwin v dx' dy' := by
  unfold timedReload at hx ⊢
  rw [h.state.privateData, h.state.time]
  split at hx
  case isFalse hruns =>
    rw [if_neg hruns]
    cases hx
    exact ⟨dy, rfl, h⟩
  case isTrue hruns =>
    rw [if_pos hruns]
    obtain ⟨⟨time, tick⟩, hstart, hx⟩ := Option.map_eq_some_iff.mp hx
    cases hx
    rw [hstart]
    refine ⟨_, rfl, ?_⟩
    exact
      { state :=
          { queue := h.state.queue
            time := by simp only
            privateData := h.state.privateData
            ipc := h.state.ipc
            last := h.state.last
            now := h.state.now
            created := h.state.created
            log := h.state.log }
        running := h.running
        last := h.last
        error := h.error
        events := h.events }

/-- One thread that is due. -/
theorem pop (h : DealTwin v dx dy) (hcpu : cpu < CFG_MAX_CPU) {t : T}
    (ht : dx.state.created t ≠ none) (hisolated : popIsolated v cpu dy t = true)
    {dx' : TimedDeal T} {rearm : Option Int} (hx : timedPop cpu dx t = some (dx', rearm)) :
    ∃ dy', timedPop cpu dy t = some (dy', rearm) ∧ DealTwin v dx' dy' := by
  obtain ⟨hsect, herror⟩ := of_decide_eq_true hisolated
  have hstop := h.stop hcpu hsect
  have hcreated : (timedStop cpu dx).state.created = dx.state.created := by
    unfold timedStop
    split <;> rfl
  have hipc : (timedStop cpu dy).state.ipc = dy.state.ipc := by
    unfold timedStop
    split <;> rfl
  have hdue := (hstop.setLast cpu (t := t) (hcreated.symm ▸ ht)).due t (by
    show (timedStop cpu dy).timedError = true → (timedStop cpu dy).state.ipc t ≠ none
    rw [hipc]
    exact herror)
  exact hdue.reload hx

end DealTwin

/-! ### The loop -/

/-- Taking a thread does not create any and leaves the queues to the loop. -/
theorem timedPop_frame {cpu : Nat} {d d' : TimedDeal T} {t : T} {rearm : Option Int}
    (h : timedPop cpu d t = some (d', rearm)) :
    d'.state.created = d.state.created ∧ d'.state.timedTimeQueue = d.state.timedTimeQueue := by
  have hstop : (timedStop cpu d).state.created = d.state.created ∧
      (timedStop cpu d).state.timedTimeQueue = d.state.timedTimeQueue := by
    unfold timedStop
    split <;> exact ⟨rfl, rfl⟩
  have hdue : ∀ d : TimedDeal T, (timedDue d t).state.created = d.state.created ∧
      (timedDue d t).state.timedTimeQueue = d.state.timedTimeQueue := by
    intro d
    unfold timedDue
    split <;> split <;> exact ⟨rfl, rfl⟩
  have hreload : ∀ {d : TimedDeal T}, timedReload d t = some (d', rearm) →
      d'.state.created = d.state.created ∧ d'.state.timedTimeQueue = d.state.timedTimeQueue := by
    intro d hd
    unfold timedReload at hd
    split at hd
    · obtain ⟨_, _, hd⟩ := Option.map_eq_some_iff.mp hd
      cases hd
      exact ⟨rfl, rfl⟩
    · cases hd
      exact ⟨rfl, rfl⟩
  obtain ⟨hcreated, hqueue⟩ := hreload h
  obtain ⟨hcreated', hqueue'⟩ := hdue ((timedStop cpu d).setLast cpu t)
  exact ⟨hcreated.trans (hcreated'.trans hstop.1), hqueue.trans (hqueue'.trans hstop.2)⟩

/-- The queue that the loop leaves holds no other threads. -/
theorem mem_keys_timedRequeue {queue : List (T × Int)} {t u : T} {rearm : Option Int}
    (h : u ∈ keys (timedRequeue queue t rearm)) : u = t ∨ u ∈ keys queue := by
  have hdel : ∀ {u}, u ∈ keys (acoralTickQueueDel queue t) → u ∈ keys queue :=
    fun hu => (List.eraseP_sublist.map Prod.fst).subset hu
  cases rearm with
  | none => exact Or.inr (hdel h)
  | some tick =>
      have hu := (keys_acoralTickQueueAdd _ t tick).mem_iff.mp h
      rw [List.mem_cons] at hu
      exact hu.imp_right hdel

theorem nodeNext_mem {queue : List (T × Int)} {t u : T} (h : nodeNext queue t = some u) :
    u ∈ keys queue := by
  obtain ⟨node, hnode, rfl⟩ := Option.map_eq_some_iff.mp h
  have htail := List.mem_of_mem_tail (List.mem_of_mem_head? hnode)
  exact List.mem_map_of_mem ((List.dropWhile_sublist _).subset htail)

theorem timedPopLoop_twin {v : T} {cpu : Nat} (hcpu : cpu < CFG_MAX_CPU) (fuel : Nat)
    {dx dy dx' : TimedDeal T} {queue queue' : List (T × Int)} {tmp : Option T}
    (h : DealTwin v dx dy) (hqueue : ∀ t ∈ keys queue, dx.state.created t ≠ none)
    (htmp : ∀ t, tmp = some t → dx.state.created t ≠ none)
    (hisolated : loopIsolated v cpu fuel dy queue tmp = true)
    (hx : timedPopLoop cpu fuel dx queue tmp = some (dx', queue')) :
    ∃ dy', timedPopLoop cpu fuel dy queue tmp = some (dy', queue') ∧ DealTwin v dx' dy' ∧
      dx'.state.created = dx.state.created ∧
      dx'.state.timedTimeQueue = dx.state.timedTimeQueue ∧
      ∀ t ∈ keys queue', dx.state.created t ≠ none := by
  induction fuel generalizing dx dy queue tmp with
  | zero => cases hx
  | succ fuel ih =>
      cases tmp with
      | none =>
          cases hx
          exact ⟨dy, rfl, h, rfl, rfl, hqueue⟩
      | some t =>
          rw [timedPopLoop] at hx ⊢
          rw [loopIsolated] at hisolated
          by_cases hv : nodeValue queue t > 0
          · rw [if_pos hv] at hx ⊢
            cases hx
            exact ⟨dy, rfl, h, rfl, rfl, hqueue⟩
          · rw [if_neg hv] at hx ⊢
            rw [if_neg hv, Bool.and_eq_true] at hisolated
            obtain ⟨⟨dx₁, rearm⟩, hpop, hrest⟩ := Option.bind_eq_some_iff.mp hx
            obtain ⟨dy₁, hpop', h₁⟩ := h.pop hcpu (htmp t rfl) hisolated.1 hpop
            obtain ⟨hcreated, hsame⟩ := timedPop_frame hpop
            have hmore := hisolated.2
            rw [hpop'] at hmore ⊢
            obtain ⟨dy', hloop, h', hcreated', hsame', hkeys⟩ := ih h₁
              (fun u hu => by
                rw [hcreated]
                rcases mem_keys_timedRequeue hu with rfl | hu
                · exact htmp u rfl
                · exact hqueue u hu)
              (fun u hu => by
                rw [hcreated]
                exact hqueue u (nodeNext_mem hu))
              hmore hrest
            rw [hcreated] at hkeys
            exact ⟨dy', hloop, h', hcreated'.trans hcreated, hsame'.trans hsame, hkeys⟩

/-! ### Ticks -/

/-- The threads in the queues of a deal were created. -/
def QueuesOwned (d : TimedDeal T) : Prop :=
  ∀ cpu, ∀ t ∈ keys (d.state.timedTimeQueue cpu), d.state.created t ≠ none

theorem timedCpuDeal_twin {v : T} {cpu : Nat} (hcpu : cpu < CFG_MAX_CPU) {dx dy dx' : TimedDeal T}
    (h : DealTwin v dx dy) (howned : QueuesOwned dx) (hisolated : cpuIsolated v dy cpu = true)
    (hx : timedCpuDeal dx cpu = some dx') :
    ∃ dy', timedCpuDeal dy cpu = some dy' ∧ DealTwin v dx' dy' ∧ QueuesOwned dx' := by
  have hkeys : ∀ t ∈ keys (tickCountDown (dx.state.timedTimeQueue cpu)),
      dx.state.created t ≠ none := by
    intro t ht
    rw [keys_tickCountDown] at ht
    exact howned cpu t ht
  have hhead : ∀ t, (tickCountDown (dx.state.timedTimeQueue cpu)).head?.map Prod.fst = some t →
      dx.state.created t ≠ none := by
    intro t ht
    obtain ⟨node, hnode, rfl⟩ := Option.map_eq_some_iff.mp ht
    exact hkeys _ (List.mem_map_of_mem (List.mem_of_mem_head? hnode))
  obtain ⟨⟨dx₁, queue'⟩, hloop, hx⟩ := Option.map_eq_some_iff.mp hx
  cases hx
  unfold cpuIsolated at hisolated
  rw [h.state.queue] at hisolated
  obtain ⟨dy₁, hloop', h₁, hcreated, hsame, howned'⟩ :=
    timedPopLoop_twin hcpu _ h hkeys hhead hisolated hloop
  refine ⟨{ dy₁ with state := { dy₁.state with
    timedTimeQueue := Function.update dy₁.state.timedTimeQueue cpu queue' } }, ?_, ?_, ?_⟩
  · unfold timedCpuDeal
    rw [h.state.queue]
    exact congrArg (Option.map _) hloop'
  · exact
      { state :=
          { queue := by simp only [h₁.state.queue]
            time := h₁.state.time
            privateData := h₁.state.privateData
            ipc := h₁.state.ipc
            last := h₁.state.last
            now := h₁.state.now
            created := h₁.state.created
            log := h₁.state.log }
        running := h₁.running
        last := h₁.last
        error := h₁.error
        events := h₁.events }
  · intro c t ht
    show dx₁.state.created t ≠ none
    rw [hcreated]
    by_cases hc : c = cpu
    · subst hc
      have ht : t ∈ keys (Function.update dx₁.state.timedTimeQueue c queue' c) := ht
      rw [Function.update_self] at ht
      exact howned' t ht
    · have ht : t ∈ keys (Function.update dx₁.state.timedTimeQueue cpu queue' c) := ht
      rw [Function.update_of_ne hc, hsame] at ht
      exact howned c t ht

theorem timedCpuDeals_twin {v : T} (cpus : List Nat) (hcpus : ∀ cpu ∈ cpus, cpu < CFG_MAX_CPU)
    {dx dy dx' : TimedDeal T} (h : DealTwin v dx dy) (howned : QueuesOwned dx)
    (hisolated : cpusIsolated v dy cpus = true) (hx : cpus.foldlM timedCpuDeal dx = some dx') :
    ∃ dy', cpus.foldlM timedCpuDeal dy = some dy' ∧ DealTwin v dx' dy' ∧ QueuesOwned dx' := by
  induction cpus generalizing dx dy with
  | nil =>
      cases hx
      exact ⟨dy, rfl, h, howned⟩
  | cons cpu cpus ih =>
      rw [cpusIsolated, Bool.and_eq_true] at hisolated
      rw [List.foldlM_cons] at hx ⊢
      obtain ⟨dx₁, hdeal, hrest⟩ := Option.bind_eq_some_iff.mp hx
      obtain ⟨dy₁, hdeal', h₁, howned₁⟩ :=
        timedCpuDeal_twin (hcpus cpu List.mem_cons_self) h howned hisolated.1 hdeal
      have hmore := hisolated.2
      rw [hdeal'] at hmore ⊢
      exact ih (fun c hc => hcpus c (List.mem_cons_of_mem _ hc)) h₁ howned₁ hmore hrest

/-- A tick of the two executions. When it returns in the first, it does in the
second. -/
theorem timedTimeDeal_twin {v : T} {x y x' : TimedState T} (h : Twin v x y) (howned : Owned x)
    (hrunning : ∀ cpu < CFG_MAX_CPU, RunsTwin v x y cpu)
    (hisolated : isolated v y .tick = true) (hx : timedTimeDeal x = some x') :
    ∃ y', timedTimeDeal y = some y' ∧ Twin v x' y' ∧ Owned x' := by
  have hstart : DealTwin v ⟨x, false, []⟩ ⟨y, false, []⟩ := ⟨h, hrunning, howned.last, id, rfl⟩
  have hcpus : ∀ cpu ∈ List.range CFG_MAX_CPU, cpu < CFG_MAX_CPU := fun _ hcpu => List.mem_range.mp hcpu
  obtain ⟨dx, hdeal, hx⟩ := Option.map_eq_some_iff.mp hx
  subst hx
  obtain ⟨dy, hdeal', hd, howned'⟩ :=
    timedCpuDeals_twin _ hcpus hstart howned.queue hisolated hdeal
  refine ⟨_, congrArg (Option.map _) hdeal', ?_, howned', hd.last⟩
  exact
    { queue := hd.state.queue
      time := hd.state.time
      privateData := hd.state.privateData
      ipc := hd.state.ipc
      last := hd.state.last
      now := by rw [h.now]
      created := hd.state.created
      log := by
        show (y.now + 1, withoutOverrun v dy.events) :: logWithoutOverrun v y.log =
          (x.now + 1, withoutOverrun v dx.events) :: logWithoutOverrun v x.log
        rw [hd.events, h.log, h.now] }

/-! ### Runs -/

theorem create_twin {v : T} {x y x' : TimedState T} (h : Twin v x y) (howned : Owned x)
    {thread : T} {policyData : TimedPolicyData}
    (hx : timedStep x (.create thread policyData) = some x') :
    ∃ y', timedStep y (.create thread policyData) = some y' ∧ Twin v x' y' ∧ Owned x' := by
  unfold timedStep at hx ⊢
  dsimp only at hx ⊢
  rw [h.created]
  split at hx
  case isFalse => cases hx
  case isTrue hnone =>
  rw [if_pos hnone]
  obtain ⟨⟨time, tick⟩, hreload, hx⟩ := Option.map_eq_some_iff.mp hx
  subst hx
  have hcreated : ∀ {t}, x.created t ≠ none →
      Function.update x.created thread (some x.now) t ≠ none := by
    intro t ht
    by_cases he : t = thread
    · rw [he, Function.update_self]
      exact Option.some_ne_none _
    · rwa [Function.update_of_ne he]
  refine ⟨_, congrArg (Option.map _) hreload, ?_, ?_, fun cpu t ht => hcreated (howned.last cpu t ht)⟩
  · exact
      { queue := by simp only [h.queue]
        time := by simp only [h.time]
        privateData := by simp only [h.privateData]
        ipc := by simp only [h.ipc]
        last := h.last
        now := h.now
        created := by simp only [h.created, h.now]
        log := h.log }
  · intro cpu t ht
    by_cases hc : cpu = min policyData.cpu (CFG_MAX_CPU - 1)
    · subst hc
      have ht : t ∈ keys (Function.update x.timedTimeQueue _ _ _) := ht
      rw [Function.update_self, (keys_acoralTickQueueAdd _ _ _).mem_iff, List.mem_cons] at ht
      rcases ht with rfl | ht
      · show Function.update x.created t (some x.now) t ≠ none
        rw [Function.update_self]
        exact Option.some_ne_none _
      · exact hcreated (howned.queue _ t ht)
    · have ht : t ∈ keys (Function.update x.timedTimeQueue _ _ cpu) := ht
      rw [Function.update_of_ne hc] at ht
      exact hcreated (howned.queue cpu t ht)

/-- One step of the two executions. -/
theorem twinStep_twin {v : T} {s s' : TimedState T × TimedState T} {op : TwinOp T}
    (h : Twin v s.1 s.2) (howned : Owned s.1) (hdiffer : differIn v s op = true)
    (hisolated : isolated v s.2 op = true) (hstep : twinStep s op = some s') :
    Twin v s'.1 s'.2 ∧ Owned s'.1 := by
  cases op with
  | create thread policyData =>
      obtain ⟨x', hx, hy⟩ := Option.bind_eq_some_iff.mp hstep
      obtain ⟨y', hy', hs⟩ := Option.map_eq_some_iff.mp hy
      obtain ⟨z, hz, htwin, howned'⟩ := create_twin h howned hx
      cases hs
      cases hz.symm.trans hy'
      exact ⟨htwin, howned'⟩
  | tick =>
      obtain ⟨x', hx, hy⟩ := Option.bind_eq_some_iff.mp hstep
      obtain ⟨y', hy', hs⟩ := Option.map_eq_some_iff.mp hy
      obtain ⟨z, hz, htwin, howned'⟩ :=
        timedTimeDeal_twin h howned (of_decide_eq_true hdiffer) hisolated hx
      cases hs
      cases hz.symm.trans hy'
      exact ⟨htwin, howned'⟩
  | env sched sched' ipc runningThread runningThread' =>
      cases hstep
      exact ⟨⟨h.queue, h.time, h.privateData, rfl, h.last, h.now, h.created, h.log⟩,
        ⟨howned.queue, howned.last⟩⟩

/-- The threads of a list come to their first section. Thread 0 still runs on
CPU 0 in the second execution if `overruns`. -/
def twinWaitsIn (threads : List (Fin 3)) (overruns : Bool) : TwinOp (Fin 3) :=
  .env noTimed.sched noTimed.sched (fun t => if threads.contains t then some (.sectionSem 0) else none)
    (fun _ => 2) fun cpu => if overruns ∧ cpu = 0 then 0 else 2

/-- Thread 1 starts on the CPU of thread 0 while that still runs. -/
def overrunAtStart : List (TwinOp (Fin 3)) :=
  [.create 0 ⟨0, [1, 4], 1, 1⟩, .create 1 ⟨0, [2, 4], 1, 1⟩, twinWaitsIn [0, 1] false, .tick,
    twinWaitsIn [1] true, .tick]

/-- Thread 0 overruns at the end of its run, and so of thread 1 on the other
CPU. -/
def overrunAtEnd : List (TwinOp (Fin 3)) :=
  [.create 0 ⟨0, [1, 2], 1, 1⟩, .create 1 ⟨1, [1, 2], 1, 1⟩, twinWaitsIn [0, 1] false, .tick,
    twinWaitsIn [] true, .tick]

end ACoral
