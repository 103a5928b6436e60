import ACoral.Kernel.Reclaim
import ACoral.Proofs.Queue

/-!
# `ACoral.Proofs.Reclaim.Sweep`: a sweep of the daemon

The loop of `daem` takes the thread at the head of the release queue out of it.
One that is RELEASE is freed, one that is still EXIT goes to the tail, where the
same loop comes upon it again.

* `sweepRound`: a round, on the list of the queue.
* `daemLoop_round`: the loop on the list nodes goes the same rounds.
* `daemSweep_iff`: the sweep ends, with the right threads freed, exactly when at
  most one thread of the queue is EXIT.
-/

set_option autoImplicit false

namespace ACoral.Reclaim

open Lib (Links)

variable {T : Type} [DecidableEq T]

/-! ### Rounds -/

/-- The release queue after a round at its head. -/
def sweepRound (state : T → BitVec 8) (t : T) (l : List T) : List T :=
  if state t = ACORAL_THREAD_STATE_RELEASE then l else l ++ [t]

/-- A round of the system, in which the daemon looks at any thread of the queue,
is this one at the head. -/
theorem daem_round (x : ReclaimState T) {t : T} {l : List T} (hq : x.releaseQueue = t :: l) :
    (daem x t).releaseQueue = sweepRound x.kernel.state t l := by
  unfold daem sweepRound
  split <;> simp [hq]

/-- The release queue holds `q`, and each of its threads is on the list of all
threads. -/
structure Queued (x : SweepState T) (q : List T) : Prop where
  ring : x.releaseQueue.IsRing .head (q.map .node)
  threads : ∃ all : List T, x.threadsQueue.IsRing .head (all.map .node) ∧ ∀ t ∈ q, t ∈ all

/-- The node at which the loop goes on when `q` is before it. -/
def firstNode (q : List T) : ThreadNode T := (q.map .node).headD .head

omit [DecidableEq T] in
/-- A node behind the first one does not matter. -/
theorem firstNode_append {q : List T} (hq : q ≠ []) (l : List T) : firstNode (q ++ l) = firstNode q := by
  cases q with
  | nil => exact absurd rfl hq
  | cons t q => rfl

/-- The threads that the loop does not free. -/
def stays (state : T → BitVec 8) (t : T) : Bool := state t ≠ ACORAL_THREAD_STATE_RELEASE

omit [DecidableEq T] in
theorem stays_eq_false {state : T → BitVec 8} {t : T} :
    stays state t = false ↔ state t = ACORAL_THREAD_STATE_RELEASE := by
  simp [stays]

/-- How often a thread was freed behind the threads of a list without doubles. -/
theorem count_reverse_append {q : List T} (hq : q.Nodup) (l : List T) (t : T) :
    (q.reverse ++ l).count t = l.count t + if t ∈ q then 1 else 0 := by
  rw [List.count_append, List.count_reverse, hq.count, Nat.add_comm]

section Queued

variable {state : T → BitVec 8} {x : SweepState T} {q l : List T} {t : T}

omit [DecidableEq T] in
theorem Queued.nodup (h : Queued x q) : q.Nodup :=
  ((List.nodup_cons.mp h.ring.nodup).2).of_map _

/-- A round of the loop at the head of the queue, and where it goes on: at the
thread behind it, even when there is none and the thread is now at the tail. -/
theorem daemLoop_round (state : T → BitVec 8) (h : Queued x (t :: l)) :
    ∃ x', Queued x' (sweepRound state t l) ∧
      x'.freed = (if stays state t then x.freed else t :: x.freed) ∧
      ∀ fuel, daemLoop state (fuel + 1) (.node t) x = daemLoop state fuel (firstNode l) x' := by
  have hnodup := h.nodup
  obtain ⟨hnot, hnodup'⟩ := List.nodup_cons.mp hnodup
  have hring₀ : x.releaseQueue.IsRing .head ([] ++ .node t :: l.map .node) := h.ring
  have hnext : x.releaseQueue.next (.node t) = firstNode l := hring₀.next_mem
  obtain ⟨release, hdel, hring⟩ := acoralListDel_ring hring₀
  obtain ⟨all, hall, hsub⟩ := h.threads
  by_cases hstate : state t = ACORAL_THREAD_STATE_RELEASE
  · -- the thread leaves the list of all threads too
    obtain ⟨l₁, l₂, rfl⟩ := List.append_of_mem (hsub t List.mem_cons_self)
    rw [List.map_append, List.map_cons] at hall
    obtain ⟨threads, hdel', hall'⟩ := acoralListDel_ring hall
    rw [← List.map_append] at hall'
    refine ⟨⟨release, threads, t :: x.freed⟩, ⟨?_, _, hall', fun u hu => ?_⟩, ?_, fun fuel => ?_⟩
    · simpa [sweepRound, hstate] using hring
    · have hu' : u ∈ l := by simpa [sweepRound, hstate] using hu
      have hut : u ≠ t := fun he => hnot (he ▸ hu')
      simpa [hut] using hsub u (List.mem_cons_of_mem t hu')
    · simp [stays, hstate]
    · simp [daemLoop, hdel, hstate, acoralReleaseThread, hdel', hnext]
  · have hfresh : (.node t : ThreadNode T) ∉ .head :: l.map .node := by simp [hnot]
    obtain ⟨release', hadd, hring'⟩ := acoralListAddTail_ring hring hfresh
    refine ⟨{ x with releaseQueue := release' }, ⟨?_, all, hall, fun u hu => hsub u ?_⟩, ?_,
      fun fuel => ?_⟩
    · simpa [sweepRound, hstate] using hring'
    · simpa [sweepRound, hstate, or_comm] using hu
    · simp [stays, hstate]
    · simp [daemLoop, hdel, hstate, hadd, hnext]

/-! ### Sweeps that end -/

/-- RELEASE threads are freed, one after the other. -/
theorem daemLoop_releases (h : Queued x (q ++ l)) (hq : ∀ t ∈ q, stays state t = false) :
    ∃ x', Queued x' l ∧ x'.freed = q.reverse ++ x.freed ∧
      ∀ fuel, daemLoop state (fuel + q.length) (firstNode (q ++ l)) x =
        daemLoop state fuel (firstNode l) x' := by
  induction q generalizing x with
  | nil => exact ⟨x, h, rfl, fun fuel => rfl⟩
  | cons t q ih =>
      have ht : state t = ACORAL_THREAD_STATE_RELEASE :=
        stays_eq_false.mp (hq t List.mem_cons_self)
      obtain ⟨x₁, h₁, hfreed₁, hloop₁⟩ := daemLoop_round state h
      rw [sweepRound, if_pos ht] at h₁
      rw [hq t List.mem_cons_self] at hfreed₁
      obtain ⟨x', h', hfreed', hloop'⟩ := ih h₁ fun u hu => hq u (List.mem_cons_of_mem t hu)
      refine ⟨x', h', ?_, fun fuel => ?_⟩
      · rw [hfreed', hfreed₁]
        simp
      · exact (hloop₁ (fuel + q.length)).trans (hloop' fuel)

/-- With one EXIT thread the loop ends: it meets the thread once where it
stands, and once more at the tail, if it does not stand there already. -/
theorem daemLoop_one {e : T} {q₁ q₂ : List T} (h : Queued x (q₁ ++ e :: q₂))
    (hq₁ : ∀ t ∈ q₁, stays state t = false) (he : stays state e = true)
    (hq₂ : ∀ t ∈ q₂, stays state t = false) :
    ∃ fuel x', daemLoop state fuel (firstNode (q₁ ++ e :: q₂)) x = some x' ∧ Queued x' [e] ∧
      x'.freed = q₂.reverse ++ (q₁.reverse ++ x.freed) := by
  have hround : ∀ l : List T, sweepRound state e l = l ++ [e] := fun l => by
    have hne : state e ≠ ACORAL_THREAD_STATE_RELEASE := by simpa [stays] using he
    rw [sweepRound, if_neg hne]
  obtain ⟨x₁, h₁, hfreed₁, hloop₁⟩ := daemLoop_releases h hq₁
  obtain ⟨x₂, h₂, hfreed₂, hloop₂⟩ := daemLoop_round state h₁
  rw [hround] at h₂
  rw [if_pos he] at hfreed₂
  by_cases hempty : q₂ = []
  · -- it stood at the tail: the loop is at the head of the queue
    subst hempty
    refine ⟨2 + q₁.length, x₂, ?_, h₂, by rw [hfreed₂, hfreed₁]; rfl⟩
    rw [hloop₁ 2]
    exact (hloop₂ 1).trans rfl
  · obtain ⟨x₃, h₃, hfreed₃, hloop₃⟩ := daemLoop_releases h₂ hq₂
    obtain ⟨x₄, h₄, hfreed₄, hloop₄⟩ := daemLoop_round state h₃
    rw [hround] at h₄
    rw [if_pos he] at hfreed₄
    refine ⟨2 + q₂.length + 1 + q₁.length, x₄, ?_, h₄, by rw [hfreed₄, hfreed₃, hfreed₂, hfreed₁]⟩
    rw [hloop₁ (2 + q₂.length + 1)]
    refine (hloop₂ (2 + q₂.length)).trans ?_
    rw [← firstNode_append hempty [e], hloop₃ 2]
    exact (hloop₄ 1).trans rfl

/-! ### Sweeps that do not end -/

omit [DecidableEq T] in
/-- A round keeps the EXIT threads. -/
theorem sweepRound_stays (t : T) (l : List T) :
    ((sweepRound state t l).filter (stays state)).length =
      ((t :: l).filter (stays state)).length := by
  by_cases ht : state t = ACORAL_THREAD_STATE_RELEASE
  · simp [sweepRound, ht, stays]
  · simp [sweepRound, ht, stays]

/-- With two EXIT threads the loop never comes back to the head of the queue. -/
theorem daemLoop_hangs (state : T → BitVec 8) (h : Queued x q) (htwo : 2 ≤ (q.filter (stays state)).length) (fuel : Nat) :
    daemLoop state fuel (firstNode q) x = none := by
  induction fuel generalizing x q with
  | zero => cases firstNode q <;> rfl
  | succ fuel ih =>
      cases q with
      | nil => exact absurd htwo (by simp)
      | cons t l =>
          obtain ⟨x', h', -, hloop⟩ := daemLoop_round state h
          have hl : l ≠ [] := fun he => by
            have hlen := List.length_filter_le (stays state) (t :: l)
            rw [he] at hlen htwo
            exact absurd (htwo.trans hlen) (by simp)
          have hfirst : firstNode (sweepRound state t l) = firstNode l := by
            unfold sweepRound
            split
            · rfl
            · exact firstNode_append hl [t]
          rw [← sweepRound_stays] at htwo
          exact (hloop fuel).trans (hfirst ▸ ih h' htwo)

end Queued

/-! ### The sweep -/

/-- The threads that were RELEASE have been freed, once each, and those that
were EXIT are the release queue. -/
structure Swept (state : T → BitVec 8) (q : List T) (x x' : SweepState T) : Prop where
  freed : ∀ t, x'.freed.count t =
    x.freed.count t + if t ∈ q ∧ state t = ACORAL_THREAD_STATE_RELEASE then 1 else 0
  queued : ∃ q' : List T, x'.releaseQueue.IsRing .head (q'.map .node) ∧
    ∀ t, t ∈ q' ↔ t ∈ q ∧ state t = ACORAL_THREAD_STATE_EXIT

/-- A list with at most one such member. -/
theorem filter_le_one {α : Type} {p : α → Bool} {q : List α} (h : (q.filter p).length ≤ 1) :
    (∀ t ∈ q, p t = false) ∨ ∃ e q₁ q₂, q = q₁ ++ e :: q₂ ∧ p e = true ∧
      (∀ t ∈ q₁, p t = false) ∧ ∀ t ∈ q₂, p t = false := by
  by_cases hall : ∀ t ∈ q, p t = false
  · exact Or.inl hall
  · obtain ⟨e, he⟩ := not_forall.mp hall
    obtain ⟨hmem, hp⟩ := Classical.not_imp.mp he
    have hpe : p e = true := by simpa using hp
    obtain ⟨q₁, q₂, rfl⟩ := List.append_of_mem hmem
    have hlen : (q₁.filter p).length + ((q₂.filter p).length + 1) ≤ 1 := by
      simpa [hpe] using h
    have hnil : ∀ l : List α, (l.filter p).length = 0 → ∀ t ∈ l, p t = false := fun l hl t ht => by
      have hf := List.filter_eq_nil_iff.mp (List.length_eq_zero_iff.mp hl) t ht
      simpa using hf
    exact Or.inr ⟨e, q₁, q₂, rfl, hpe, hnil q₁ (by omega), hnil q₂ (by omega)⟩

/-- One sweep of the daemon, over any threads that are EXIT or RELEASE, in any
order. It ends, with the RELEASE threads freed and the EXIT threads queued, if
and only if at most one of them is EXIT. -/
theorem daemSweep_iff (state : T → BitVec 8) (x : SweepState T) (q : List T) (h : Queued x q)
    (hstate : ∀ t ∈ q, state t = ACORAL_THREAD_STATE_EXIT ∨
      state t = ACORAL_THREAD_STATE_RELEASE) :
    (∃ fuel x', daemSweep state fuel x = some x' ∧ Swept state q x x') ↔
      (q.filter fun t => state t = ACORAL_THREAD_STATE_EXIT).length ≤ 1 := by
  have hne : ACORAL_THREAD_STATE_EXIT ≠ ACORAL_THREAD_STATE_RELEASE := by decide
  have hexit : ∀ t ∈ q, (decide (state t = ACORAL_THREAD_STATE_EXIT)) = stays state t := by
    intro t ht
    rcases hstate t ht with hs | hs
    · simp [stays, hs, hne]
    · simp [stays, hs, hne.symm]
  have hfirst : x.releaseQueue.next .head = firstNode q := h.ring.next_head
  rw [List.filter_congr hexit]
  unfold daemSweep
  rw [hfirst]
  constructor
  · rintro ⟨fuel, x', hloop, -⟩
    by_contra hmany
    rw [daemLoop_hangs state h (by omega) fuel] at hloop
    exact absurd hloop (by simp)
  · intro hone
    rcases filter_le_one hone with hall | ⟨e, q₁, q₂, rfl, he, hq₁, hq₂⟩
    · -- nothing but RELEASE threads
      have h' : Queued x (q ++ []) := by rwa [List.append_nil]
      obtain ⟨x', hx', hfreed, hloop⟩ := daemLoop_releases h' hall
      rw [List.append_nil] at hloop
      refine ⟨1 + q.length, x', (hloop 1).trans rfl, fun t => ?_, [], hx'.ring, fun t => ?_⟩
      · rw [hfreed, count_reverse_append h.nodup]
        by_cases ht : t ∈ q
        · simp [ht, stays_eq_false.mp (hall t ht)]
        · simp [ht]
      · refine iff_of_false List.not_mem_nil fun ⟨ht, hs⟩ => hne ?_
        exact hs.symm.trans (stays_eq_false.mp (hall t ht))
    · obtain ⟨fuel, x', hloop, hx', hfreed⟩ := daemLoop_one h hq₁ he hq₂
      have hnodup := h.nodup
      have he' : state e = ACORAL_THREAD_STATE_EXIT := by
        have := hexit e (by simp)
        rw [he] at this
        exact of_decide_eq_true this
      obtain ⟨hnot, hnodup'⟩ := List.nodup_cons.mp (List.nodup_middle.mp hnodup)
      refine ⟨fuel, x', hloop, fun t => ?_, [e], hx'.ring, fun t => ?_⟩
      · have hsplit : q₂.reverse ++ (q₁.reverse ++ x.freed) = (q₁ ++ q₂).reverse ++ x.freed := by simp
        rw [hfreed, hsplit, count_reverse_append hnodup']
        by_cases hte : t = e
        · rw [hte]
          simp [hnot, he', hne]
        · have hin : t ∈ q₁ ++ e :: q₂ ↔ t ∈ q₁ ++ q₂ := by simp [hte]
          by_cases ht : t ∈ q₁ ++ q₂
          · have hs : state t = ACORAL_THREAD_STATE_RELEASE :=
              stays_eq_false.mp ((List.mem_append.mp ht).elim (hq₁ t) (hq₂ t))
            simp only [hin, ht, hs, and_self, if_true]
          · simp only [hin, ht, false_and, if_false]
      · rw [List.mem_singleton]
        constructor
        · rintro rfl
          exact ⟨by simp, he'⟩
        · rintro ⟨ht, hs⟩
          by_contra hte
          have ht' : t ∈ q₁ ++ q₂ := by simpa [hte] using ht
          have hrel := stays_eq_false.mp ((List.mem_append.mp ht').elim (hq₁ t) (hq₂ t))
          exact hne (hs.symm.trans hrel)

/-- Two threads in both queues. -/
def twoThreads : SweepState Bool :=
  let queue : Links (ThreadNode Bool) :=
    { next := fun
        | .head       => .node false
        | .node false => .node true
        | .node true  => .head
      prev := fun
        | .head       => .node true
        | .node false => .head
        | .node true  => .node false }
  { releaseQueue := queue, threadsQueue := queue, freed := [] }

theorem twoThreads_queued : Queued twoThreads [false, true] := by
  have hring : twoThreads.releaseQueue.IsRing .head ([false, true].map ThreadNode.node) :=
    ⟨by decide, by simp [twoThreads, Links.Path, Links.Adj]⟩
  exact ⟨hring, _, hring, fun t ht => ht⟩

/-- The first thread is EXIT, the second one RELEASE. -/
theorem daemSweep_iff_exitFirst :
    (∃ fuel x', daemSweep (fun t => if t then ACORAL_THREAD_STATE_RELEASE
        else ACORAL_THREAD_STATE_EXIT) fuel twoThreads = some x' ∧
      Swept (fun t => if t then ACORAL_THREAD_STATE_RELEASE else ACORAL_THREAD_STATE_EXIT)
        [false, true] twoThreads x') ↔
    ([false, true].filter fun t => (if t then ACORAL_THREAD_STATE_RELEASE
      else ACORAL_THREAD_STATE_EXIT) = ACORAL_THREAD_STATE_EXIT).length ≤ 1 :=
  daemSweep_iff _ twoThreads [false, true] twoThreads_queued fun t _ => by cases t <;> simp

/-- Both threads are EXIT: the daemon goes round and round. -/
theorem daemSweep_hangs : Queued twoThreads [false, true] ∧
    ¬ ∃ fuel x', daemSweep (fun _ => ACORAL_THREAD_STATE_EXIT) fuel twoThreads = some x' := by
  refine ⟨twoThreads_queued, fun ⟨fuel, x', hsweep⟩ => ?_⟩
  have hnone := daemLoop_hangs (fun _ => ACORAL_THREAD_STATE_EXIT) twoThreads_queued
    (by decide) fuel
  exact absurd (hnone.symm.trans hsweep) (by simp)

end ACoral.Reclaim
