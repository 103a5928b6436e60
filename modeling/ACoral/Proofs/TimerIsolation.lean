import ACoral.Proofs.TickQueue

/-!
# `ACoral.Proofs.TimerIsolation`: adding and killing beside other threads

A step on a tick queue is harmless when every other thread in it is
still popped by the same call of the handler (`SamePop`). Adding and
removing are not always harmless:

* `acoral_tick_queue_add` keeps every expiry, but the handler does not
  count down while the first thread has no ticks left. So a thread that
  is added with 0 ticks in front of waiting ones holds all of them up by
  one call (`add_harmless_iff`);
* `acoral_kill_thread` unlinks the nodes of a SUSPEND thread and hands
  their ticks to nobody, so the threads behind it come early
  (`remove_harmless_iff`).

`timer_isolation` puts the two conditions together, for each of the
queues. `timer_isolation_fails` has a case of each.
-/

set_option autoImplicit false

namespace ACoral

open Lib (keys expiry Ordered)

variable {T : Type} [DecidableEq T]

/-- The tick queues of the kernel. -/
inductive TimerQueue where
  | delay
  | period
  | timed (cpu : Nat)

/-- A queue of the kernel. -/
def TimerState.queue (s : TimerState T) : TimerQueue → List (T × Int)
  | .delay     => s.timeDelayQueue
  | .period    => s.periodTimeQueue
  | .timed cpu => s.timedTimeQueue cpu

/-- What killing a thread does to a queue. -/
theorem killTimerNodes_queue (s : TimerState T) (r : T) (id : TimerQueue) :
    (killTimerNodes s r).queue id =
      if hasFlag (s.sched.thread r).state ACORAL_THREAD_STATE_SUSPEND then
        acoralTickQueueDel (s.queue id) r
      else s.queue id := by
  unfold killTimerNodes
  split <;> cases id <;> rfl

/-- The queue itself pops its threads as it does. -/
theorem SamePop.refl (q : List (T × Int)) (x : T) : SamePop q q x :=
  fun _ _ _ => Iff.rfl

/-! ### Adding -/

/-- Adding is harmless exactly when the thread waits, or stands in front
of nobody that does. -/
theorem add_harmless_iff {q : List (T × Int)} (h : Ordered q) {n : T} (hn : n ∉ keys q)
    {tick : Int} (ht : 0 ≤ tick) :
    (∀ x ∈ keys q, SamePop q (acoralTickQueueAdd q n tick) x) ↔
      (0 < tick ∨ q = [] ∨ headTicks q = 0) := by
  have hord := ordered_acoralTickQueueAdd h hn ht
  have hiff : ∀ x ∈ keys q, SamePop q (acoralTickQueueAdd q n tick) x ↔
      ((headTicks q = 0) ↔ (headTicks (acoralTickQueueAdd q n tick) = 0)) := by
    intro x hx
    have hne : n ≠ x := fun he => hn (he ▸ hx)
    have hx' : x ∈ keys (acoralTickQueueAdd q n tick) :=
      (keys_acoralTickQueueAdd q n tick).mem_iff.mpr (List.mem_cons_of_mem _ hx)
    rw [samePop_iff h hord hx hx', expiry_tickCountDown h hx, expiry_tickCountDown hord hx',
      expiry_acoralTickQueueAdd hne tick hx]
    split <;> split <;> omega
  cases q with
  | nil => simp
  | cons node q =>
      obtain ⟨t, v⟩ := node
      have hv := h.head_nonneg
      have hhead : headTicks (acoralTickQueueAdd ((t, v) :: q) n tick) =
          if tick - v < 0 then tick else v := by
        simp only [acoralTickQueueAdd]
        split <;> rfl
      have hcond : ((headTicks ((t, v) :: q) = 0) ↔
          (headTicks (acoralTickQueueAdd ((t, v) :: q) n tick) = 0)) ↔ (0 < tick ∨ v = 0) := by
        rw [hhead]
        show (v = 0 ↔ _) ↔ _
        split <;> omega
      constructor
      · intro hall
        have ht' := (hiff t List.mem_cons_self).mp (hall t List.mem_cons_self)
        exact (hcond.mp ht').imp id Or.inr
      · intro hc x hx
        refine (hiff x hx).mpr (hcond.mpr (hc.imp id fun h0 => ?_))
        exact h0.resolve_left (List.cons_ne_nil _ _)

/-! ### Removing -/

/-- The condition under which the others do not notice that a thread is
unlinked: it is the last one; or it is not the first one and has no
ticks of its own; or it is the first one, has at most the tick that is
counted down next, and the second one has none. -/
def RemovalHarmless (q : List (T × Int)) (r : T) : Prop :=
  nodeNext q r = none ∨
    if (keys q).head? = some r then
      nodeValue q r ≤ 1 ∧ ∀ y ∈ nodeNext q r, nodeValue q y = 0
    else nodeValue q r = 0

/-- The first thread of a queue leaves it. -/
theorem removeHead_harmless_iff {r : T} {v : Int} {q : List (T × Int)}
    (h : Ordered ((r, v) :: q)) :
    (∀ x ∈ keys q, SamePop ((r, v) :: q) q x) ↔ (q = [] ∨ (v ≤ 1 ∧ headTicks q = 0)) := by
  have hv := h.head_nonneg
  have hiff : ∀ x ∈ keys q, SamePop ((r, v) :: q) q x ↔ (v ≤ 1 ∧ headTicks q = 0) := by
    intro x hx
    have hne : r ≠ x := fun he => h.notMem (he ▸ hx)
    rw [samePop_iff h h.tail (List.mem_cons_of_mem _ hx) hx,
      expiry_tickCountDown h (List.mem_cons_of_mem _ hx), expiry_tickCountDown h.tail hx,
      Lib.expiry_cons_of_ne hne]
    show v + expiry q x - (if v = 0 then 0 else 1) = _ ↔ _
    split <;> split <;> omega
  cases q with
  | nil => simp
  | cons node q =>
      constructor
      · intro hall
        exact Or.inr ((hiff node.1 List.mem_cons_self).mp (hall node.1 List.mem_cons_self))
      · intro hc x hx
        exact (hiff x hx).mpr (hc.resolve_left (List.cons_ne_nil _ _))

/-- A later thread leaves the queue. -/
theorem removeInner_harmless_iff {q₁ q₂ : List (T × Int)} {r : T} {v : Int} (hq₁ : q₁ ≠ [])
    (h : Ordered (q₁ ++ (r, v) :: q₂)) :
    (∀ x ∈ keys (q₁ ++ (r, v) :: q₂), x ≠ r → SamePop (q₁ ++ (r, v) :: q₂) (q₁ ++ q₂) x) ↔
      (q₂ = [] ∨ v = 0) := by
  have hhead : headTicks (q₁ ++ q₂) = headTicks (q₁ ++ (r, v) :: q₂) := by
    obtain ⟨node, q, rfl⟩ := List.exists_cons_of_ne_nil hq₁
    rfl
  have hord : Ordered (q₁ ++ q₂) := h.sublist (by simp)
  have hnd := h.nodup
  rw [Lib.keys_append, Lib.keys_cons] at hnd
  obtain ⟨-, hnd2, hdisj⟩ := List.nodup_append.mp hnd
  have hiff : ∀ x, x ∈ keys (q₁ ++ q₂) → x ∈ keys (q₁ ++ (r, v) :: q₂) →
      (SamePop (q₁ ++ (r, v) :: q₂) (q₁ ++ q₂) x ↔
        expiry (q₁ ++ q₂) x = expiry (q₁ ++ (r, v) :: q₂) x) := by
    intro x hx' hx
    rw [samePop_iff h hord hx hx', expiry_tickCountDown h hx, expiry_tickCountDown hord hx', hhead]
    split <;> omega
  have hleft : ∀ x ∈ keys q₁, SamePop (q₁ ++ (r, v) :: q₂) (q₁ ++ q₂) x := fun x hx =>
    (hiff x (by simp [hx]) (by simp [hx])).mpr (Lib.expiry_remove_left hx r v q₂)
  have hright : ∀ x ∈ keys q₂, SamePop (q₁ ++ (r, v) :: q₂) (q₁ ++ q₂) x ↔ v = 0 := by
    intro x hx
    have hx1 : x ∉ keys q₁ := fun hm => hdisj x hm x (List.mem_cons_of_mem _ hx) rfl
    have hrx : r ≠ x := fun he => (List.nodup_cons.mp hnd2).1 (he ▸ hx)
    rw [hiff x (by simp [hx]) (by simp [hx]), Lib.expiry_remove_right hx1 hrx v q₂]
    omega
  constructor
  · intro hall
    cases q₂ with
    | nil => exact Or.inl rfl
    | cons node q =>
        have hmem : node.1 ∈ keys (node :: q) := List.mem_cons_self
        have hne : node.1 ≠ r := fun he => (List.nodup_cons.mp hnd2).1 (he ▸ hmem)
        exact Or.inr ((hright node.1 hmem).mp (hall node.1 (by simp [hmem]) hne))
  · intro hc x hx hxr
    rw [Lib.keys_append, Lib.keys_cons, List.mem_append, List.mem_cons] at hx
    rcases hx with hx | hx | hx
    · exact hleft x hx
    · exact absurd hx hxr
    · rcases hc with rfl | hv
      · simp at hx
      · exact (hright x hx).mpr hv

/-- Removing is harmless under exactly that condition. -/
theorem remove_harmless_iff {q : List (T × Int)} (h : Ordered q) {r : T} (hr : r ∈ keys q) :
    (∀ x ∈ keys q, x ≠ r → SamePop q (acoralTickQueueDel q r) x) ↔ RemovalHarmless q r := by
  obtain ⟨q₁, v, q₂, rfl, hn⟩ := exists_split hr
  have hnone : (keys q₂).head? = none ↔ q₂ = [] := by simp [keys]
  unfold RemovalHarmless
  rw [acoralTickQueueDel_split hn, nodeNext_split hn, nodeValue_split hn, hnone]
  cases q₁ with
  | nil =>
      rw [List.nil_append] at h ⊢
      rw [if_pos (by rfl)]
      have hside : (∀ x ∈ keys ((r, v) :: q₂), x ≠ r → SamePop ((r, v) :: q₂) ([] ++ q₂) x) ↔
          ∀ x ∈ keys q₂, SamePop ((r, v) :: q₂) q₂ x := by
        constructor
        · intro hall x hx
          exact hall x (List.mem_cons_of_mem _ hx) fun he => h.notMem (he ▸ hx)
        · intro hall x hx hxr
          exact hall x ((List.mem_cons.mp hx).resolve_left hxr)
      have hsecond : q₂ ≠ [] → ((∀ y ∈ (keys q₂).head?, nodeValue ((r, v) :: q₂) y = 0) ↔
          headTicks q₂ = 0) := by
        intro hne
        obtain ⟨node, q, rfl⟩ := List.exists_cons_of_ne_nil hne
        have hnr : r ≠ node.1 := fun he => h.notMem (he ▸ List.mem_cons_self)
        have hval : nodeValue ((r, v) :: node :: q) node.1 = node.2 := by
          simp [nodeValue, hnr]
        show (∀ y ∈ some node.1, _) ↔ node.2 = 0
        simp [hval]
      rw [hside, removeHead_harmless_iff h]
      by_cases hq₂ : q₂ = []
      · simp [hq₂]
      · simp only [hq₂, false_or]
        rw [hsecond hq₂]
  | cons node q₁ =>
      have hne : (keys (node :: q₁ ++ (r, v) :: q₂)).head? ≠ some r := by
        intro he
        have : node.1 = r := by simpa [keys] using he
        exact hn (this ▸ List.mem_cons_self)
      rw [if_neg hne]
      exact removeInner_harmless_iff (List.cons_ne_nil _ _) h

/-! ### The claim about the queues -/

/-- Every queue of the kernel, with its threads in order. Adding a
thread for `tick` ticks leaves every other thread to the call of the
handler that would have popped it, exactly if `tick` is positive, the
queue is empty, or its first thread has no ticks left. Killing a queued
thread does so exactly if the thread is not SUSPEND, so that it stays
queued, or its removal is harmless. -/
theorem timer_isolation (s : TimerState T) (id : TimerQueue) (hq : Ordered (s.queue id)) :
    (∀ (n : T) (tick : Int), n ∉ keys (s.queue id) → 0 ≤ tick →
      ((∀ x ∈ keys (s.queue id), SamePop (s.queue id) (acoralTickQueueAdd (s.queue id) n tick) x) ↔
        (0 < tick ∨ s.queue id = [] ∨ headTicks (s.queue id) = 0))) ∧
    (∀ r ∈ keys (s.queue id),
      ((∀ x ∈ keys (s.queue id), x ≠ r →
          SamePop (s.queue id) ((killTimerNodes s r).queue id) x) ↔
        (hasFlag (s.sched.thread r).state ACORAL_THREAD_STATE_SUSPEND = false ∨
          RemovalHarmless (s.queue id) r))) := by
  refine ⟨fun n tick hn ht => add_harmless_iff hq hn ht, fun r hr => ?_⟩
  rw [killTimerNodes_queue]
  cases hasFlag (s.sched.thread r).state ACORAL_THREAD_STATE_SUSPEND with
  | true =>
      rw [if_pos rfl, remove_harmless_iff hq hr]
      simp
  | false =>
      rw [if_neg (by simp)]
      simp [SamePop.refl]

/-- Three suspended threads; `0` and `1` are delayed by 3 and 5 ticks. -/
def twoDelayed : TimerState (Fin 3) :=
  { sched := acoralSchedRdyqueueInit fun t =>
      { resId := 0, state := ACORAL_THREAD_STATE_SUSPEND, prio := t.val + 3, cpu := 0 }
    timeDelayQueue := [(0, 3), (1, 2)]
    periodTimeQueue := []
    timedTimeQueue := fun _ => [] }

/-- A third thread delayed by 4 ticks comes between the two. -/
theorem timer_isolation_twoDelayed :
    acoralTickQueueAdd (twoDelayed.queue .delay) 2 4 = [(0, 3), (2, 1), (1, 1)] ∧
    ∀ x ∈ keys (twoDelayed.queue .delay),
      SamePop (twoDelayed.queue .delay) (acoralTickQueueAdd (twoDelayed.queue .delay) 2 4) x := by
  have hord : Ordered (twoDelayed.queue .delay) := ⟨by decide, by decide⟩
  exact ⟨by decide, ((timer_isolation twoDelayed .delay hord).1 2 4 (by decide) (by decide)).mpr
    (Or.inl (by decide))⟩

/-- Thread `0` is popped by the third call and `1` by the fifth. With
thread `2` added for 0 ticks, they are popped by the fourth and the
sixth. With thread `0` killed, `1` is popped by the second. -/
theorem timer_isolation_fails :
    (poppedAt (fun _ _ => none) 3 (twoDelayed.queue .delay) 0 = true ∧
      poppedAt (fun _ _ => none) 5 (twoDelayed.queue .delay) 1 = true) ∧
    (poppedAt (fun _ _ => none) 4 (acoralTickQueueAdd (twoDelayed.queue .delay) 2 0) 0 = true ∧
      poppedAt (fun _ _ => none) 6 (acoralTickQueueAdd (twoDelayed.queue .delay) 2 0) 1 = true) ∧
    poppedAt (fun _ _ => none) 2 ((killTimerNodes twoDelayed 0).queue .delay) 1 = true := by
  decide

end ACoral
