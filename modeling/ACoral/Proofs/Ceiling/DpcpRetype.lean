import ACoral.Proofs.Ceiling.Dpcp
import ACoral.Lib.RingFamily
import Mathlib.Order.Bounds.Basic

/-!
# `ACoral.Proofs.Ceiling.DpcpRetype`: `acoral_dpcp_set`

A resource gets a new type and a new ceiling, while resources are in use. The
source handles the resource at the top of its stack, and writes the ceiling of
that one resource into the system, whatever else is held.

* `DpcpHolds`: the resources in use are those on the stacks, in any order.
* `DpcpHolds.postAll`: the posts of the resources in use.
* `RetypeFits`: the condition under which the call keeps the systems right.
* `dpcpSet_iff`: it is exact.
-/

set_option autoImplicit false

namespace ACoral

open CeilingState
open Lib (Links)

/-! ### The smallest ceiling -/

section Least

variable {R : Type}

/-- `p` is the smallest of the ceilings of `A`, or the idle maximum if there is
none. -/
def LeastCeiling (ceiling : R → Nat) (A : Set R) (p : Nat) : Prop :=
  A = ∅ ∧ p = ACORAL_MAX_PRIO_NUM ∨ IsLeast (ceiling '' A) p

/-- It is about the ceilings of the set only. -/
theorem LeastCeiling.congr {f g : R → Nat} {A : Set R} {p : Nat} (h : LeastCeiling f A p)
    (heq : ∀ q ∈ A, g q = f q) : LeastCeiling g A p := by
  unfold LeastCeiling
  rwa [Set.image_congr heq]

/-- The ceiling of a member is the smallest one. -/
theorem leastCeiling_mem {f : R → Nat} {A : Set R} {r : R} (hr : r ∈ A) :
    LeastCeiling f A (f r) ↔ ∀ q ∈ A, f r ≤ f q := by
  constructor
  · rintro (⟨hempty, -⟩ | ⟨-, hlow⟩) q hq
    · rw [hempty] at hr
      exact absurd hr (Set.notMem_empty r)
    · exact hlow (Set.mem_image_of_mem f hq)
  · intro h
    refine Or.inr ⟨Set.mem_image_of_mem f hr, ?_⟩
    rintro p ⟨q, hq, rfl⟩
    exact h q hq

/-- The smallest ceiling stays so when that of one member changes, if it is
not above the new one, and is the new one or that of another member. -/
theorem leastCeiling_change {f g : R → Nat} {A : Set R} {r : R} {p : Nat} (hr : r ∈ A)
    (h : LeastCeiling f A p) (heq : ∀ q ∈ A, q ≠ r → g q = f q) :
    LeastCeiling g A p ↔ p ≤ g r ∧ (g r = p ∨ ∃ q ∈ A, q ≠ r ∧ f q = p) := by
  have hlow : ∀ q ∈ A, p ≤ f q := by
    rcases h with ⟨hempty, -⟩ | ⟨-, hlow⟩
    · rw [hempty] at hr
      exact absurd hr (Set.notMem_empty r)
    · exact fun q hq => hlow (Set.mem_image_of_mem f hq)
  constructor
  · rintro (⟨hempty, -⟩ | ⟨⟨q, hq, hqp⟩, hlow'⟩)
    · rw [hempty] at hr
      exact absurd hr (Set.notMem_empty r)
    · refine ⟨hlow' (Set.mem_image_of_mem g hr), ?_⟩
      by_cases hqr : q = r
      · exact Or.inl (hqr ▸ hqp)
      · exact Or.inr ⟨q, hq, hqr, (heq q hq hqr).symm.trans hqp⟩
  · rintro ⟨hle, hattained⟩
    refine Or.inr ⟨?_, ?_⟩
    · rcases hattained with hgr | ⟨q, hq, hqr, hqp⟩
      · exact ⟨r, hr, hgr⟩
      · exact ⟨q, hq, (heq q hq hqr).trans hqp⟩
    · rintro x ⟨q, hq, rfl⟩
      by_cases hqr : q = r
      · rw [hqr]
        exact hle
      · rw [heq q hq hqr]
        exact hlow q hq

end Least

variable {R T : Type} [DecidableEq R] [DecidableEq T]

namespace CeilingState

/-- The resources of a system that are in use. -/
def inUse (s : CeilingState R DpcpSystem T) (k : DpcpSystem) : Set R :=
  {q | s.owner q ≠ none ∧ s.dpcpSystem q = k}

/-- The priority of a system is the smallest ceiling of its resources in use,
or the idle maximum. -/
def PrioLeast (s : CeilingState R DpcpSystem T) (k : DpcpSystem) : Prop :=
  LeastCeiling (fun q => (s.res q).prioCeiling) (s.inUse k) (s.sysPrio k)

/-- A resource is on the stack of its own type. -/
def OnOwnStack (s : CeilingState R DpcpSystem T) (q : R) : Prop :=
  ∃ l : List R, s.stack.IsRing (.head (s.dpcpSystem q)) (l.map .stacking) ∧ q ∈ l

end CeilingState

/-! ### The invariant -/

/-- The resources in use are those on the stacks `S`, in any order; the
semaphores count them, and the threads that wait are in the queues `Q`. -/
structure DpcpHolds (s : CeilingState R DpcpSystem T) (S : DpcpSystem → List R)
    (Q : CeilingObj R DpcpSystem → List T) : Prop extends s.StackRings s.dpcpSystem S where
  owned : ∀ r, r ∈ S (s.dpcpSystem r) ↔ s.owner r ≠ none
  sems : s.Sems
  queues : s.ipc.Queues Q

namespace DpcpHolds

variable {s s' : CeilingState R DpcpSystem T} {S : DpcpSystem → List R}
  {Q : CeilingObj R DpcpSystem → List T} {r : R}

omit [DecidableEq R] [DecidableEq T] in
theorem inUse_eq (h : DpcpHolds s S Q) (k : DpcpSystem) : s.inUse k = {q | q ∈ S k} := by
  ext q
  constructor
  · rintro ⟨howner, hk⟩
    exact hk ▸ (h.owned q).mpr howner
  · intro hq
    have hk := h.home k q hq
    exact ⟨(h.owned q).mp (hk ▸ hq), hk⟩

omit [DecidableEq R] [DecidableEq T] in
theorem mem_iff (h : DpcpHolds s S Q) (k : DpcpSystem) (q : R) :
    q ∈ S k ↔ s.owner q ≠ none ∧ s.dpcpSystem q = k := by
  have heq : (q ∈ s.inUse k) = (q ∈ {q | q ∈ S k}) := by rw [h.inUse_eq]
  exact (iff_of_eq heq).symm

end DpcpHolds

/-! ### The posts -/

/-- The user of a resource posts it, and migrates back if the call does. -/
def dpcpPostHeld (r : R) (s : CeilingState R DpcpSystem T) :
    Option (KernelError × CeilingState R DpcpSystem T) :=
  (s.owner r).bind fun cur => (acoralDpcpPost cur r s).map fun
    | (e, none, s)     => (e, s)
    | (e, some cpu, s) => (e, jumpCpu s cur cpu)

/-- The users of the resources post them one after the other. -/
def dpcpPostAll : List R → CeilingState R DpcpSystem T →
    Option (List KernelError × CeilingState R DpcpSystem T)
  | [], s      => some ([], s)
  | r :: rs, s => (dpcpPostHeld r s).bind fun (e, s) =>
      (dpcpPostAll rs s).map fun (errs, s) => (e :: errs, s)

omit [DecidableEq R] [DecidableEq T] in
/-- The stacks are about the list nodes and the resources only. -/
theorem CeilingState.StackRings.sameRes {K : Type} {s s' : CeilingState R K T} {sys : R → K}
    {S : K → List R} (h : s.StackRings sys S) (hsame : SameRes s s') : s'.StackRings sys S where
  ring k := by rw [hsame.stack]; exact h.ring k
  home := h.home
  free r := by rw [hsame.stack]; exact h.free r
  value r := by rw [hsame.res]; exact h.value r
  ceiling r := by rw [hsame.res]; exact h.ceiling r

omit [DecidableEq T] in
/-- A resource on a stack can leave it. -/
theorem CeilingState.StackRings.pop_isSome {K : Type} [DecidableEq K] {s : CeilingState R K T}
    {sys : R → K} {S : K → List R} (h : s.StackRings sys S) {j : K} {r : R} (hr : r ∈ S j) (k : K) :
    ∃ s', s.pop k r = some s' := by
  obtain ⟨l₁, l₂, hsplit⟩ := List.append_of_mem hr
  have hring := h.ring j
  rw [hsplit, List.map_append, List.map_cons] at hring
  unfold CeilingState.pop CeilingState.lifoQueueDel
  rw [acoralListDel_mem hring]
  exact ⟨_, rfl⟩

omit [DecidableEq T] in
/-- A resource leaves its stack, and the system gets the ceiling of the new top. -/
theorem CeilingState.StackRings.pop {K : Type} [DecidableEq K] {s s' : CeilingState R K T}
    {sys : R → K} {S : K → List R} (h : s.StackRings sys S) {r : R} (hr : r ∈ S (sys r))
    (hpop : s.pop (sys r) r = some s') :
    s'.StackRings sys (Function.update S (sys r) ((S (sys r)).erase r)) ∧
      s'.sysPrio = Function.update s.sysPrio (sys r) (topPrio s ((S (sys r)).erase r)) := by
  obtain ⟨s₁, hdel, rfl⟩ := Option.map_eq_some_iff.mp hpop
  obtain ⟨hrings, heq⟩ := h.lifoQueueDel hr hdel
  refine ⟨⟨hrings.ring, hrings.home, hrings.free, hrings.value, hrings.ceiling⟩, ?_⟩
  have htop := hrings.topValue (sys r)
  have hceiling : topPrio s₁ ((S (sys r)).erase r) = topPrio s ((S (sys r)).erase r) := by
    have hres : s₁.res = s.res := by rw [heq]
    cases (S (sys r)).erase r with
    | nil => rfl
    | cons q l => exact congrArg CeilingRes.prioCeiling (congrFun hres q)
  rw [Function.update_self, hceiling] at htop
  show Function.update s₁.sysPrio (sys r) _ = _
  rw [htop, heq]

/-- The wake-up returns. -/
theorem dpcpWake_isSome {s : CeilingState R DpcpSystem T} {Q : CeilingObj R DpcpSystem → List T}
    (h : s.ipc.Queues Q) (k : DpcpSystem) : ∃ s', dpcpWake k s = some s' := by
  have hhead : s.waitHead k = some (Q (.wait k)).head? := (h.waits (.wait k)).high
  unfold dpcpWake
  rw [hhead]
  cases hQ : Q (.wait k) with
  | nil => exact ⟨s, rfl⟩
  | cons t q =>
      have hring : s.ipc.links.IsRing (.head (.wait k)) ([] ++ .pending t :: q.map .pending) := by
        have hwaits := h.waits (.wait k)
        rw [hQ] at hwaits
        exact hwaits
      have hdel := acoralListDel_mem hring
      have hwait : ∃ s₁, s.waitDel t = some s₁ := by
        unfold CeilingState.waitDel acoralPrioQueueDel
        rw [hdel]
        exact ⟨_, rfl⟩
      obtain ⟨s₁, hwait⟩ := hwait
      exact ⟨s₁.rdyThread t, by simp [hwait]⟩

/-- It keeps the queues. -/
theorem dpcpWake_queues {s s' : CeilingState R DpcpSystem T}
    {Q : CeilingObj R DpcpSystem → List T} (h : s.ipc.Queues Q) {k : DpcpSystem}
    (hwake : dpcpWake k s = some s') : ∃ Q', s'.ipc.Queues Q' := by
  have hhead : s.waitHead k = some (Q (.wait k)).head? := (h.waits (.wait k)).high
  rcases dpcpWake_cases hwake with ⟨-, rfl⟩ | ⟨t, s₁, hsome, hdel, rfl⟩
  · exact ⟨Q, h⟩
  · have hmem : t ∈ Q (.wait k) :=
      List.mem_of_mem_head? (Option.some.inj (hhead.symm.trans hsome))
    exact ⟨_, (waitDel_queues h hmem hdel).1.congr rfl⟩

namespace DpcpHolds

variable {s s' : CeilingState R DpcpSystem T} {S : DpcpSystem → List R}
  {Q : CeilingObj R DpcpSystem → List T} {r : R}

omit [DecidableEq T] in
/-- A resource in use leaves its stack and is given back. -/
theorem drop (h : DpcpHolds s S Q) (hr : s.owner r ≠ none) {s₀ s₁ s₂ : CeilingState R DpcpSystem T}
    (hsame₀ : SameRes s s₀) (hpop : s₀.pop (s.dpcpSystem r) r = some s₁) (hsame₂ : SameRes s₁ s₂)
    (hsame : SameRes (s₂.drop r) s') {Q' : CeilingObj R DpcpSystem → List T}
    (hqueues : s'.ipc.Queues Q') :
    let k := s.dpcpSystem r
    DpcpHolds s' (Function.update S k ((S k).erase r)) Q' ∧ s'.res = s.res ∧
      s'.sysPrio = Function.update s.sysPrio k (topPrio s ((S k).erase r)) ∧
      ∀ q, s'.owner q = if q = r then none else s.owner q := by
  intro k
  have hmem : r ∈ S k := (h.owned r).mpr hr
  have hrings₀ := h.toStackRings.sameRes hsame₀
  obtain ⟨hrings, hprio⟩ := hrings₀.pop hmem hpop
  have hpopped := SameButStack.pop hpop
  have hres : s'.res = s.res := by
    rw [hsame.res, show (s₂.drop r).res = s₂.res from rfl, hsame₂.res, hpopped.res, hsame₀.res]
  have hstack : s'.stack = s₁.stack := by
    rw [hsame.stack, show (s₂.drop r).stack = s₂.stack from rfl, hsame₂.stack]
  have howner : ∀ q, s'.owner q = if q = r then none else s.owner q := fun q => by
    have hq : s₂.owner q = s.owner q := by
      rw [hsame₂.owner q, ← hsame₀.owner q]
      unfold CeilingState.owner
      rw [hpopped.ipc]
    rw [hsame.owner q, drop_owner, hq]
  have hsys : s'.dpcpSystem = s.dpcpSystem := by
    unfold CeilingState.dpcpSystem
    rw [hres]
  refine ⟨⟨?_, fun q => ?_, fun q => ?_, hqueues⟩, hres, ?_, howner⟩
  · rw [hsys]
    refine ⟨fun j => ?_, hrings.home, fun q => ?_, fun q => ?_, fun q => ?_⟩
    · rw [hstack]
      exact hrings.ring j
    · rw [hstack]
      exact hrings.free q
    · rw [hres]
      exact h.value q
    · rw [hres]
      exact h.ceiling q
  · rw [hsys, howner q]
    have hnodup := h.nodup k
    by_cases hq : q = r
    · rw [hq, if_pos rfl]
      show r ∈ Function.update S k _ k ↔ _
      rw [Function.update_self, hnodup.mem_erase_iff]
      simp
    · rw [if_neg hq, ← h.owned q]
      by_cases hk : s.dpcpSystem q = k
      · rw [hk, Function.update_self, hnodup.mem_erase_iff]
        simp [hq]
      · rw [Function.update_of_ne hk]
  · have hq : s₂.SemOk q := (h.sems q).congr (by rw [hsame₂.obj, hpopped.ipc, hsame₀.obj])
    exact (hq.drop r).congr (by rw [hsame.obj])
  · have htop : topPrio s₀ ((S k).erase r) = topPrio s ((S k).erase r) := by
      unfold topPrio
      rw [hsame₀.res]
    rw [hsame.sysPrio, show (s₂.drop r).sysPrio = s₂.sysPrio from rfl, hsame₂.sysPrio, hprio, htop,
      hsame₀.sysPrio]

/-- A post of a resource in use returns. If it succeeds, the resource has left
its stack, and the system has the ceiling of the new top; else nothing has
changed. -/
theorem postHeld (h : DpcpHolds s S Q) (hr : s.owner r ≠ none) :
    ∃ e s', dpcpPostHeld r s = some (e, s') ∧ (e ≠ .KR_OK ∧ s' = s ∨ e = .KR_OK ∧
      ∃ Q', DpcpHolds s' (Function.update S (s.dpcpSystem r) ((S (s.dpcpSystem r)).erase r)) Q' ∧
        s'.res = s.res ∧
        s'.sysPrio = Function.update s.sysPrio (s.dpcpSystem r)
          (topPrio s ((S (s.dpcpSystem r)).erase r)) ∧
        ∀ q, s'.owner q = if q = r then none else s.owner q) := by
  obtain ⟨cur, hcur⟩ := Option.ne_none_iff_exists'.mp hr
  have hmem : r ∈ S (s.dpcpSystem r) := (h.owned r).mpr hr
  -- the parts of the call return, whatever the systems
  have hparts : ∀ (s₀ : CeilingState R DpcpSystem T) (k : DpcpSystem), SameRes s s₀ →
      s₀.ipc = s.ipc → ∃ s₁, s₀.pop k r = some s₁ ∧ ∀ j, ∃ s₂, dpcpWake j s₁ = some s₂ ∧
        (dpcpRestore cur r s₂).semPost r = some (.KR_OK, s₂.drop r) := fun s₀ k hsame hipc => by
    obtain ⟨s₁, hpop⟩ := (h.toStackRings.sameRes hsame).pop_isSome hmem k
    refine ⟨s₁, hpop, fun j => ?_⟩
    have hqueues : s₁.ipc.Queues Q := h.queues.congr (by rw [(SameButStack.pop hpop).ipc, hipc])
    obtain ⟨s₂, hwake⟩ := dpcpWake_isSome hqueues j
    refine ⟨s₂, hwake, dpcpRestore_semPost h.sems hcur ?_⟩
    rw [(SameRes.dpcpWake hwake).obj, (SameButStack.pop hpop).ipc, hipc]
  have hpost : ∃ x, acoralDpcpPost cur r s = some x := by
    cases htype : (s.res r).type with
    | LOCAL =>
        by_cases hcpu : (s.res r).cpu = s.cpu cur
        · obtain ⟨s₁, hpop, hwake⟩ := hparts s (.LOCAL, s.cpu cur) (SameRes.refl s) rfl
          obtain ⟨s₂, hwake, hsem⟩ := hwake (.LOCAL, s.cpu cur)
          exact ⟨_, by simp [acoralDpcpPost, hcur, htype, hcpu, hpop, hwake, hsem]; rfl⟩
        · exact ⟨_, by simp [acoralDpcpPost, hcur, htype, hcpu]; rfl⟩
    | GLOBAL =>
        let s₀ := s.switchPreempt cur .ACORAL_PREEMPT_GLOBAL .ACORAL_PREEMPT_LOCAL
        obtain ⟨s₁, hpop, hwake⟩ :=
          hparts s₀ (s₀.dpcpSystem r) (SameRes.switchPreempt ..) (switchPreempt_ipc ..)
        obtain ⟨s₂, hwake, hsem⟩ := hwake (s₁.dpcpSystem r)
        exact ⟨_, by simp [acoralDpcpPost, hcur, htype, s₀, hpop, hwake, hsem]; rfl⟩
  obtain ⟨⟨e, c, s₁⟩, hpost⟩ := hpost
  have hrun : ∃ s', dpcpPostHeld r s = some (e, s') ∧ (s' = s₁ ∧ c = none ∨
      ∃ cpu, c = some cpu ∧ s' = jumpCpu s₁ cur cpu) := by
    cases c with
    | none => exact ⟨s₁, by simp [dpcpPostHeld, hcur, hpost], Or.inl ⟨rfl, rfl⟩⟩
    | some cpu =>
        exact ⟨jumpCpu s₁ cur cpu, by simp [dpcpPostHeld, hcur, hpost], Or.inr ⟨cpu, rfl, rfl⟩⟩
  obtain ⟨s', hrun, hjump⟩ := hrun
  refine ⟨e, s', hrun, ?_⟩
  rcases acoralDpcpPost_cases h.sems hpost with ⟨he, rfl, rfl⟩ | ⟨rfl, hposted⟩
  · obtain ⟨rfl, -⟩ | ⟨cpu, hc, -⟩ := hjump
    · exact Or.inl ⟨he, rfl⟩
    · exact absurd hc (by simp)
  · refine Or.inr ⟨rfl, ?_⟩
    have hsame' : SameRes s₁ s' ∧ s'.ipc.links = s₁.ipc.links := by
      obtain ⟨rfl, -⟩ | ⟨cpu, -, rfl⟩ := hjump
      · exact ⟨SameRes.refl _, rfl⟩
      · exact ⟨SameRes.jumpCpu .., jumpCpu_links ..⟩
    obtain ⟨x₀, x₁, x₂, hpop, hwake, hcases⟩ := hposted.posted
    have hbefore : SameRes s x₀ ∧ x₀.ipc = s.ipc := by
      obtain ⟨-, -, rfl, -⟩ | ⟨-, rfl, -⟩ := hcases
      · exact ⟨SameRes.refl _, rfl⟩
      · exact ⟨SameRes.switchPreempt .., switchPreempt_ipc ..⟩
    have hafter : SameRes (x₂.drop r) s₁ ∧ s₁.ipc.links = x₂.ipc.links := by
      obtain ⟨-, -, -, -, rfl⟩ | ⟨-, -, ⟨p, -, -, -, rfl⟩ | ⟨-, -, rfl⟩⟩ := hcases
      · exact ⟨SameRes.refl _, rfl⟩
      · exact ⟨⟨rfl, rfl, rfl, rfl⟩, rfl⟩
      · exact ⟨SameRes.refl _, rfl⟩
    have hqueues₁ : x₁.ipc.Queues Q :=
      h.queues.congr (by rw [(SameButStack.pop hpop).ipc, hbefore.2])
    obtain ⟨Q', hqueues'⟩ := dpcpWake_queues hqueues₁ hwake
    exact ⟨Q', h.drop hr hbefore.1 hpop (SameRes.dpcpWake hwake) (hafter.1.trans hsame'.1)
      (hqueues'.congr (hsame'.2.trans hafter.2))⟩

/-- The posts of resources in use return. If they all succeed, these resources
have left the stacks, and an empty stack has the idle maximum. -/
theorem postAll {rs : List R} (h : DpcpHolds s S Q) (hnodup : rs.Nodup)
    (huse : ∀ r ∈ rs, s.owner r ≠ none) {A : DpcpSystem → Prop}
    (hidle : ∀ k, A k → S k = [] → s.sysPrio k = ACORAL_MAX_PRIO_NUM) :
    ∃ errs s', dpcpPostAll rs s = some (errs, s') ∧ ((∀ e ∈ errs, e = .KR_OK) →
      ∃ S' Q', DpcpHolds s' S' Q' ∧
        (∀ k, A k → S' k = [] → s'.sysPrio k = ACORAL_MAX_PRIO_NUM) ∧
        ∀ k q, q ∈ S' k ↔ q ∈ S k ∧ q ∉ rs) := by
  induction rs generalizing s S Q with
  | nil => exact ⟨[], s, rfl, fun _ => ⟨S, Q, h, hidle, fun k q => by simp⟩⟩
  | cons r rs ih =>
      obtain ⟨hr, hnodup'⟩ := List.nodup_cons.mp hnodup
      have hown : s.owner r ≠ none := huse r List.mem_cons_self
      have huse' : ∀ q ∈ rs, s.owner q ≠ none := fun q hq => huse q (List.mem_cons_of_mem r hq)
      obtain ⟨e, s₁, hpost, ⟨he, rfl⟩ | ⟨rfl, Q₁, h₁, -, hprio, howner⟩⟩ := h.postHeld hown
      · -- a post that failed: the others return all the same
        obtain ⟨errs, s', hall, -⟩ := ih h hnodup' huse' hidle
        refine ⟨e :: errs, s', by simp [dpcpPostAll, hpost, hall], fun hok => ?_⟩
        exact absurd (hok e List.mem_cons_self) he
      · have hin : r ∈ S (s.dpcpSystem r) := (h.owned r).mpr hown
        have hleft : ∀ k q, q ∈ Function.update S (s.dpcpSystem r)
            ((S (s.dpcpSystem r)).erase r) k ↔ q ∈ S k ∧ q ≠ r := fun k q => by
          by_cases hk : k = s.dpcpSystem r
          · rw [hk, Function.update_self, (h.nodup _).mem_erase_iff, and_comm]
          · rw [Function.update_of_ne hk]
            refine ⟨fun hq => ⟨hq, fun hqr => hk ?_⟩, And.left⟩
            rw [← h.home k q hq, hqr]
        have huse₁ : ∀ q ∈ rs, s₁.owner q ≠ none := fun q hq => by
          have hne : q ≠ r := fun hqr => hr (hqr ▸ hq)
          rw [howner q, if_neg hne]
          exact huse' q hq
        have hidle₁ : ∀ k, A k →
            Function.update S (s.dpcpSystem r) ((S (s.dpcpSystem r)).erase r) k = [] →
            s₁.sysPrio k = ACORAL_MAX_PRIO_NUM := fun k hA hk => by
          rw [hprio]
          by_cases hkr : k = s.dpcpSystem r
          · rw [hkr, Function.update_self] at hk
            rw [hkr, Function.update_self, hk]
            rfl
          · rw [Function.update_of_ne hkr] at hk
            rw [Function.update_of_ne hkr]
            exact hidle k hA hk
        obtain ⟨errs, s', hall, hempty⟩ := ih h₁ hnodup' huse₁ hidle₁
        refine ⟨.KR_OK :: errs, s', by simp [dpcpPostAll, hpost, hall], fun hok => ?_⟩
        obtain ⟨S', Q', h', hidle', hmem⟩ := hempty fun e he => hok e (List.mem_cons_of_mem _ he)
        refine ⟨S', Q', h', hidle', fun k q => ?_⟩
        rw [hmem k q, hleft k q, List.mem_cons, not_or, and_assoc]

end DpcpHolds

/-! ### The property -/

/-- The resources in use and the systems of a CPU are right: each system has
the smallest ceiling of its resources in use, these are on the stacks of their
types, and if their users post them, in any order, then the stacks are empty and
the systems idle. -/
structure DpcpRight (s : CeilingState R DpcpSystem T) (cpu : Nat) : Prop where
  prio : ∀ type, s.PrioLeast (type, cpu)
  own : ∀ q, s.owner q ≠ none → s.OnOwnStack q
  posts : ∀ rs : List R, rs.Nodup → (∀ q, q ∈ rs ↔ s.owner q ≠ none ∧ (s.res q).cpu = cpu) →
    ∃ errs s', dpcpPostAll rs s = some (errs, s') ∧ ((∀ e ∈ errs, e = .KR_OK) →
      ∀ type, s'.stack.IsRing (.head (type, cpu)) [] ∧
        s'.sysPrio (type, cpu) = ACORAL_MAX_PRIO_NUM)

namespace DpcpHolds

variable {s : CeilingState R DpcpSystem T} {S : DpcpSystem → List R}
  {Q : CeilingObj R DpcpSystem → List T} {r : R} {cpu : Nat}

omit [DecidableEq R] [DecidableEq T] in
theorem prioLeast_iff (h : DpcpHolds s S Q) (k : DpcpSystem) : s.PrioLeast k ↔
    LeastCeiling (fun q => (s.res q).prioCeiling) {q | q ∈ S k} (s.sysPrio k) := by
  unfold CeilingState.PrioLeast
  rw [h.inUse_eq]

/-- With the stacks in order, the priorities of the systems are what matters. -/
theorem right_iff (h : DpcpHolds s S Q) :
    DpcpRight s cpu ↔ ∀ type, s.PrioLeast (type, cpu) := by
  refine ⟨DpcpRight.prio, fun hprio => ⟨hprio, fun q hq => ?_, fun rs hnodup hrs => ?_⟩⟩
  · exact ⟨S (s.dpcpSystem q), h.ring _, (h.owned q).mpr hq⟩
  · have hidle : ∀ k : DpcpSystem, k.2 = cpu → S k = [] → s.sysPrio k = ACORAL_MAX_PRIO_NUM := by
      rintro ⟨type, c⟩ rfl hempty
      have hleast := (h.prioLeast_iff _).mp (hprio type)
      rcases hleast with ⟨-, hmax⟩ | ⟨⟨q, hq, -⟩, -⟩
      · exact hmax
      · rw [hempty] at hq
        exact absurd hq List.not_mem_nil
    obtain ⟨errs, s', hall, hdone⟩ :=
      h.postAll hnodup (fun q hq => ((hrs q).mp hq).1) hidle
    refine ⟨errs, s', hall, fun hok type => ?_⟩
    obtain ⟨S', Q', h', hidle', hmem⟩ := hdone hok
    have hempty : S' (type, cpu) = [] := List.eq_nil_iff_forall_not_mem.mpr fun q hq => by
      obtain ⟨hq, hnot⟩ := (hmem _ q).mp hq
      obtain ⟨howner, hk⟩ := (h.mem_iff _ q).mp hq
      exact hnot ((hrs q).mpr ⟨howner, congrArg Prod.snd hk⟩)
    have hring := h'.ring (type, cpu)
    rw [hempty] at hring
    exact ⟨hring, hidle' _ rfl hempty⟩

end DpcpHolds

/-! ### The call -/

/-- The queues list resources, each in one queue at most. -/
structure DpcpListed (L : Links (DpcpNode R)) (W : DpcpSystem → List R) : Prop where
  ring : ∀ k, L.IsRing (.head k) ((W k).map .list)
  apart : ∀ j k q, q ∈ W j → q ∈ W k → j = k

/-- A resource that is listed can move to any queue. -/
theorem dpcpRelist_isSome {L : Links (DpcpNode R)} {W : DpcpSystem → List R} (h : DpcpListed L W)
    {j : DpcpSystem} {r : R} (hr : r ∈ W j) (k : DpcpSystem) :
    ∃ L', dpcpRelist L r k = some L' := by
  obtain ⟨l₁, l₂, hsplit⟩ := List.append_of_mem hr
  have hring := h.ring j
  have hmem : (.list r : DpcpNode R) ∈ (W j).map .list := List.mem_map_of_mem hr
  have hdel : acoralListDel L (.list r) = some (L.unlink (.list r)) := by
    rw [hsplit, List.map_append, List.map_cons] at hring
    exact acoralListDel_mem hring
  -- the ring of the new queue, without the resource
  have hnew : ∃ l : List (DpcpNode R), (L.unlink (.list r)).IsRing (.head k) l ∧
      (.list r : DpcpNode R) ∉ .head k :: l := by
    by_cases hk : k = j
    · rw [hsplit, List.map_append, List.map_cons] at hring
      have hnodup := hring.nodup
      refine ⟨_, hk ▸ hring.remove, fun hin => ?_⟩
      rcases List.mem_cons.mp hin with he | hin
      · exact absurd he (by simp)
      · exact (List.nodup_middle.mp (List.nodup_cons.mp hnodup).2 |> List.nodup_cons.mp).1 hin
    · have hnot : r ∉ W k := fun hin => hk (h.apart k j r hin hr)
      have hframe : ∀ y ∈ (.head k : DpcpNode R) :: (W k).map .list,
          (L.unlink (.list r)).next y = L.next y ∧ (L.unlink (.list r)).prev y = L.prev y := by
        intro y hy
        refine acoralPrioQueueDel_frame hring hmem hdel fun hin => ?_
        rcases List.mem_cons.mp hy with rfl | hy
        · simp [hk] at hin
        · obtain ⟨q, hq, rfl⟩ := List.mem_map.mp hy
          exact hk (h.apart k j q hq (by simpa using hin))
      exact ⟨_, (h.ring k).congr (fun y hy => (hframe y hy).1) (fun y hy => (hframe y hy).2),
        by simp [hnot]⟩
  obtain ⟨l, hring', hnot⟩ := hnew
  unfold dpcpRelist
  rw [hdel, Option.bind_some, acoralListAdd_head hring' hnot]
  exact ⟨_, rfl⟩

omit [DecidableEq T] in
/-- The system of a resource behind `setCeiling`. -/
theorem setCeiling_dpcpSystem (s : CeilingState R DpcpSystem T) (r q : R) (type : CeilingType)
    (ceiling : Nat) : (s.setCeiling r type ceiling).dpcpSystem q =
      if q = r then (type, (s.res r).cpu) else s.dpcpSystem q := by
  unfold CeilingState.setCeiling CeilingState.dpcpSystem
  by_cases hq : q = r <;> simp [hq]

omit [DecidableEq T] in
/-- Its ceiling. -/
theorem setCeiling_prioCeiling (s : CeilingState R DpcpSystem T) (r q : R) (type : CeilingType)
    (ceiling : Nat) : ((s.setCeiling r type ceiling).res q).prioCeiling =
      if q = r then ceiling else (s.res q).prioCeiling := by
  unfold CeilingState.setCeiling
  by_cases hq : q = r <;> simp [hq]

omit [DecidableEq T] in
/-- A resource whose node stands where it should gets its new fields. -/
theorem DpcpHolds.setCeiling {s s₁ : CeilingState R DpcpSystem T} {S S' : DpcpSystem → List R}
    {Q : CeilingObj R DpcpSystem → List T} {sys : R → DpcpSystem} {r : R} {type : CeilingType}
    {ceiling : Nat} (h : DpcpHolds s S Q) (hrings : s₁.StackRings sys S') (hipc : s₁.ipc = s.ipc)
    (hceiling : ceiling < 256) (hmem : ∀ k q, q ∈ S' k ↔
      s.owner q ≠ none ∧ (s₁.setCeiling r type ceiling).dpcpSystem q = k) :
    DpcpHolds (s₁.setCeiling r type ceiling) S' Q := by
  have howner : ∀ q, (s₁.setCeiling r type ceiling).owner q = s.owner q := fun q => by
    unfold CeilingState.setCeiling CeilingState.owner
    rw [hipc]
  refine ⟨⟨hrings.ring, fun k q hq => ((hmem k q).mp hq).2, fun q hq => ?_, fun q => ?_,
    fun q => ?_⟩, fun q => ?_, fun q => ?_, h.queues.congr ?_⟩
  · refine hrings.free q fun hin => hq ?_
    exact ((hmem _ q).mp hin).2.symm ▸ hin
  · have hv := hrings.value q
    unfold CeilingState.setCeiling
    by_cases hqr : q = r
    · simp [hqr]
    · simpa [hqr] using hv
  · rw [setCeiling_prioCeiling]
    split
    · exact hceiling
    · exact hrings.ceiling q
  · rw [hmem, howner]
    exact and_iff_left rfl
  · exact (h.sems q).congr (by unfold CeilingState.setCeiling; rw [hipc])
  · unfold CeilingState.setCeiling
    rw [hipc]

omit [DecidableEq T] in
/-- The resource at the top of a stack moves to another stack. -/
theorem DpcpHolds.restack {s : CeilingState R DpcpSystem T} {S : DpcpSystem → List R}
    {Q : CeilingObj R DpcpSystem → List T} {r : R} {rest : List R} {new : DpcpSystem}
    (h : DpcpHolds s S Q) (hS : S (s.dpcpSystem r) = r :: rest) (hne : new ≠ s.dpcpSystem r)
    (ceiling : Nat) :
    ∃ s₁, s.restack r (s.dpcpSystem r) new ceiling = some s₁ ∧ s₁.ipc = s.ipc ∧ s₁.res = s.res ∧
      s₁.StackRings (Function.update s.dpcpSystem r new)
        (Function.update (Function.update S (s.dpcpSystem r) rest) new (r :: S new)) ∧
      s₁.sysPrio = Function.update (Function.update s.sysPrio (s.dpcpSystem r) (topPrio s rest))
        new ceiling := by
  have hmem : r ∈ S (s.dpcpSystem r) := hS ▸ List.mem_cons_self
  have hnodup := h.nodup (s.dpcpSystem r)
  rw [hS] at hnodup
  obtain ⟨s₂, hpop⟩ := h.toStackRings.pop_isSome hmem (s.dpcpSystem r)
  obtain ⟨hrings, hprio⟩ := h.toStackRings.pop hmem hpop
  rw [hS, List.erase_cons_head] at hrings hprio
  -- the resource is on no stack now
  have hoff : ∀ j, r ∉ Function.update S (s.dpcpSystem r) rest j := fun j hj => by
    by_cases hk : j = s.dpcpSystem r
    · rw [hk, Function.update_self] at hj
      exact (List.nodup_cons.mp hnodup).1 hj
    · rw [Function.update_of_ne hk] at hj
      exact hk (h.home j r hj).symm
  have hmoved : (s₂.setSysPrio new ceiling).StackRings (Function.update s.dpcpSystem r new)
      (Function.update S (s.dpcpSystem r) rest) := by
    refine ⟨hrings.ring, fun k q hq => ?_, fun q hq => ?_, hrings.value, hrings.ceiling⟩
    · have hqr : q ≠ r := fun he => hoff k (he ▸ hq)
      rw [Function.update_of_ne hqr]
      exact hrings.home k q hq
    · by_cases hqr : q = r
      · rw [hqr]
        exact hrings.free r (hoff _)
      · rw [Function.update_of_ne hqr] at hq
        exact hrings.free q hq
  have hadd : ∃ s₁, (s₂.setSysPrio new ceiling).lifoQueueAdd new r = some s₁ := by
    unfold CeilingState.lifoQueueAdd
    rw [acoralListAdd_head (hmoved.ring new) (StackRings.notMem_ring (hoff new))]
    exact ⟨_, rfl⟩
  obtain ⟨s₁, hadd⟩ := hadd
  have hself : Function.update s.dpcpSystem r new r = new := Function.update_self ..
  have hadd' : (s₂.setSysPrio new ceiling).lifoQueueAdd (Function.update s.dpcpSystem r new r) r =
      some s₁ := by
    rw [hself]
    exact hadd
  obtain ⟨hrings', heq'⟩ := hmoved.lifoQueueAdd (hoff _) hadd'
  rw [hself, Function.update_of_ne hne] at hrings'
  have hpopped := SameButStack.pop hpop
  refine ⟨s₁, ?_, ?_, ?_, hrings', ?_⟩
  · unfold CeilingState.restack
    rw [hpop, Option.bind_some]
    exact hadd
  · rw [heq']
    exact hpopped.ipc
  · rw [heq']
    exact hpopped.res
  · rw [heq']
    show Function.update s₂.sysPrio new ceiling = _
    rw [hprio]

/-- When the new type and ceiling of a resource fit what else is held. -/
inductive RetypeFits (s : CeilingState R DpcpSystem T) (S : DpcpSystem → List R) (r : R)
    (type : CeilingType) (ceiling : Nat) : Prop where
  /-- the resource is free -/
  | free (hfree : r ∉ S (s.dpcpSystem r))
  /-- it is at the top and keeps its type; its ceiling is not above the others -/
  | top {rest : List R} (htop : S (s.dpcpSystem r) = r :: rest) (htype : (s.res r).type = type)
      (hleast : ∀ q ∈ rest, ceiling ≤ (s.res q).prioCeiling)
  /-- it is at the top and changes its type; the next one of the old type has the smallest
  ceiling, and its own is not above those of the new type -/
  | moved {rest : List R} (htop : S (s.dpcpSystem r) = r :: rest) (htype : (s.res r).type ≠ type)
      (hold : ∀ q ∈ rest, topPrio s rest ≤ (s.res q).prioCeiling)
      (hnew : ∀ q ∈ S (type, (s.res r).cpu), ceiling ≤ (s.res q).prioCeiling)
  /-- it is below the top and keeps its type; the priority of the system is still the smallest
  ceiling -/
  | below (hheld : r ∈ S (s.dpcpSystem r)) (htop : (S (s.dpcpSystem r)).head? ≠ some r)
      (htype : (s.res r).type = type) (hle : s.sysPrio (s.dpcpSystem r) ≤ ceiling)
      (hleast : ceiling = s.sysPrio (s.dpcpSystem r) ∨
        ∃ q ∈ S (s.dpcpSystem r), q ≠ r ∧ (s.res q).prioCeiling = s.sysPrio (s.dpcpSystem r))

namespace DpcpHolds

variable {s s₁ : CeilingState R DpcpSystem T} {S : DpcpSystem → List R}
  {Q : CeilingObj R DpcpSystem → List T} {r : R} {type : CeilingType} {ceiling : Nat}

omit [DecidableEq T] in
/-- A resource that is free, or keeps its type, gets its new fields: the
resources in use are where they were. -/
theorem rewrite (h : DpcpHolds s S Q) (hstack : s₁.stack = s.stack) (hres : s₁.res = s.res)
    (hipc : s₁.ipc = s.ipc) (hceiling : ceiling < 256)
    (hkeep : s.owner r ≠ none → (s.res r).type = type) :
    DpcpHolds (s₁.setCeiling r type ceiling) S Q := by
  have hrings : s₁.StackRings s.dpcpSystem S := by
    refine ⟨fun k => ?_, h.home, fun q => ?_, fun q => ?_, fun q => ?_⟩
    · rw [hstack]
      exact h.ring k
    · rw [hstack]
      exact h.free q
    · rw [hres]
      exact h.value q
    · rw [hres]
      exact h.ceiling q
  refine h.setCeiling hrings hipc hceiling fun k q => ?_
  rw [h.mem_iff, setCeiling_dpcpSystem]
  refine and_congr_right fun howner => ?_
  have hsys : s₁.dpcpSystem q = s.dpcpSystem q := by
    unfold CeilingState.dpcpSystem
    rw [hres]
  by_cases hq : q = r
  · subst hq
    rw [if_pos rfl, ← hkeep howner, hres]
    rfl
  · rw [if_neg hq, hsys]

omit [DecidableEq T] in
/-- A system without the resource is as right as it was. -/
theorem prioLeast_without {S' : DpcpSystem → List R} (h : DpcpHolds (s₁.setCeiling r type ceiling) S' Q)
    (hres : s₁.res = s.res) {k : DpcpSystem} (hr : r ∉ S' k) :
    (s₁.setCeiling r type ceiling).PrioLeast k ↔
      LeastCeiling (fun q => (s.res q).prioCeiling) {q | q ∈ S' k} (s₁.sysPrio k) := by
  have heq : ∀ q ∈ {q | q ∈ S' k}, ((s₁.setCeiling r type ceiling).res q).prioCeiling =
      (s.res q).prioCeiling := fun q hq => by
    have hqr : q ≠ r := fun he => hr (he ▸ hq)
    rw [setCeiling_prioCeiling, if_neg hqr, hres]
  rw [h.prioLeast_iff]
  exact ⟨fun hl => hl.congr fun q hq => (heq q hq).symm, fun hl => hl.congr heq⟩

omit [DecidableEq T] in
/-- A system that has the ceiling of the resource, which is on top of `rest`. -/
theorem prioLeast_top {S' : DpcpSystem → List R} (h : DpcpHolds (s₁.setCeiling r type ceiling) S' Q)
    (hres : s₁.res = s.res) {k : DpcpSystem} {rest : List R} (hS : S' k = r :: rest)
    (hprio : s₁.sysPrio k = ceiling) :
    (s₁.setCeiling r type ceiling).PrioLeast k ↔ ∀ q ∈ rest, ceiling ≤ (s.res q).prioCeiling := by
  have hnodup := h.nodup k
  rw [hS] at hnodup
  have hself : ((s₁.setCeiling r type ceiling).res r).prioCeiling = ceiling := by
    rw [setCeiling_prioCeiling, if_pos rfl]
  have hmem : r ∈ {q | q ∈ S' k} := by
    rw [hS]
    exact List.mem_cons_self
  have hleast := leastCeiling_mem (f := fun q => ((s₁.setCeiling r type ceiling).res q).prioCeiling) hmem
  rw [hself] at hleast
  rw [h.prioLeast_iff, show (s₁.setCeiling r type ceiling).sysPrio k = ceiling from hprio, hleast]
  constructor
  · intro hall q hq
    have hqr : q ≠ r := fun he => (List.nodup_cons.mp hnodup).1 (he ▸ hq)
    have hle := hall q (by rw [hS]; exact List.mem_cons_of_mem r hq)
    rwa [setCeiling_prioCeiling, if_neg hqr, hres] at hle
  · intro hall q hq
    rw [hS] at hq
    rw [setCeiling_prioCeiling]
    split
    · exact Nat.le_refl _
    · case isFalse hqr =>
        rw [hres]
        exact hall q ((List.mem_cons.mp hq).resolve_left hqr)

end DpcpHolds

/-! ### The cases -/

section Cases

variable {s : DpcpData R T} {S W : DpcpSystem → List R} {Q : CeilingObj R DpcpSystem → List T}
  {r : R} {type : CeilingType} {prioCeiling : BitVec 8}

/-- A free resource. -/
theorem dpcpSet_free (h : DpcpHolds s.st S Q)
    (hleast : ∀ type, s.st.PrioLeast (type, (s.st.res r).cpu)) (hcpu : (s.st.res r).cpu < CFG_MAX_CPU)
    (hr : r ∉ S (s.st.dpcpSystem r)) :
    ∃ s', acoralDpcpSet r type prioCeiling s = some s' ∧ DpcpRight s'.st (s.st.res r).cpu := by
  have hfree : s.st.owner r = none := not_not.mp fun ho => hr ((h.owned r).mpr ho)
  have htop : s.st.stackTop (s.st.dpcpSystem r) ≠ some r := fun he => by
    rw [h.stackTop] at he
    exact hr (List.mem_of_mem_head? he)
  have hoff : ∀ k, r ∉ S k := fun k hk => ((h.mem_iff k r).mp hk).1 hfree
  have h' : DpcpHolds (s.st.setCeiling r type prioCeiling.toNat) S Q :=
    h.rewrite rfl rfl rfl prioCeiling.isLt fun ho => absurd hfree ho
  refine ⟨_, by simp [acoralDpcpSet, Nat.not_le.mpr hcpu, htop]; rfl, ?_⟩
  refine h'.right_iff.mpr fun type' => (h'.prioLeast_without rfl (hoff _)).mpr ?_
  exact (h.prioLeast_iff _).mp (hleast type')

/-- The resource at the top, without a change of its type. -/
theorem dpcpSet_top (h : DpcpHolds s.st S Q)
    (hleast : ∀ type, s.st.PrioLeast (type, (s.st.res r).cpu)) (hcpu : (s.st.res r).cpu < CFG_MAX_CPU)
    {rest : List R} (hS : S (s.st.dpcpSystem r) = r :: rest) (htype : (s.st.res r).type = type) :
    (∃ s', acoralDpcpSet r type prioCeiling s = some s' ∧ DpcpRight s'.st (s.st.res r).cpu) ↔
      ∀ q ∈ rest, prioCeiling.toNat ≤ (s.st.res q).prioCeiling := by
  have htop : s.st.stackTop (s.st.dpcpSystem r) = some r := by rw [h.stackTop, hS]; rfl
  let s₁ := s.st.setSysPrio (s.st.dpcpSystem r) prioCeiling.toNat
  have hset : acoralDpcpSet r type prioCeiling s =
      some { s with st := s₁.setCeiling r type prioCeiling.toNat } := by
    simp [acoralDpcpSet, Nat.not_le.mpr hcpu, htop, htype, s₁]
  have h' : DpcpHolds (s₁.setCeiling r type prioCeiling.toNat) S Q :=
    h.rewrite rfl rfl rfl prioCeiling.isLt fun _ => htype
  have hkeep := h'.prioLeast_top (s := s.st) rfl hS (Function.update_self ..)
  rw [hset]
  simp only [Option.some.injEq, exists_eq_left', h'.right_iff, ← hkeep]
  constructor
  · intro hall
    exact hall (s.st.res r).type
  · intro hprio type'
    by_cases hk : (type', (s.st.res r).cpu) = s.st.dpcpSystem r
    · rw [hk]
      exact hprio
    · have hoff : r ∉ S (type', (s.st.res r).cpu) := fun hin => hk (h.home _ r hin).symm
      refine (h'.prioLeast_without (s := s.st) rfl hoff).mpr ?_
      rw [show s₁.sysPrio (type', (s.st.res r).cpu) = s.st.sysPrio _ from Function.update_of_ne hk ..]
      exact (h.prioLeast_iff _).mp (hleast type')

/-- The resource at the top, with a change of its type. -/
theorem dpcpSet_moved (h : DpcpHolds s.st S Q) (hcpu : (s.st.res r).cpu < CFG_MAX_CPU)
    (hlisted : DpcpListed s.queue W) (hin : ∃ k, r ∈ W k)
    {rest : List R} (hS : S (s.st.dpcpSystem r) = r :: rest) (htype : (s.st.res r).type ≠ type) :
    (∃ s', acoralDpcpSet r type prioCeiling s = some s' ∧ DpcpRight s'.st (s.st.res r).cpu) ↔
      (∀ q ∈ rest, topPrio s.st rest ≤ (s.st.res q).prioCeiling) ∧
        ∀ q ∈ S (type, (s.st.res r).cpu), prioCeiling.toNat ≤ (s.st.res q).prioCeiling := by
  have htop : s.st.stackTop (s.st.dpcpSystem r) = some r := by rw [h.stackTop, hS]; rfl
  have hne : (type, (s.st.res r).cpu) ≠ s.st.dpcpSystem r := fun he =>
    htype (congrArg Prod.fst he).symm
  obtain ⟨s₁, hrestack, hipc, hres, hrings, hprio⟩ := h.restack hS hne prioCeiling.toNat
  obtain ⟨k, hk⟩ := hin
  obtain ⟨queue, hqueue⟩ := dpcpRelist_isSome hlisted hk (type, (s.st.res r).cpu)
  have hset : acoralDpcpSet r type prioCeiling s =
      some { st := s₁.setCeiling r type prioCeiling.toNat, queue := queue } := by
    simp [acoralDpcpSet, Nat.not_le.mpr hcpu, htop, htype, hrestack, hqueue]
  have hnodup := h.nodup (s.st.dpcpSystem r)
  rw [hS] at hnodup
  have hown : s.st.owner r ≠ none := (h.owned r).mp (hS ▸ List.mem_cons_self)
  -- the stacks hold what is in use, by the new systems
  have h' : DpcpHolds (s₁.setCeiling r type prioCeiling.toNat) _ Q :=
    h.setCeiling hrings hipc prioCeiling.isLt fun j q => by
    rw [setCeiling_dpcpSystem, hres]
    have hsys : s₁.dpcpSystem q = s.st.dpcpSystem q := by
      unfold CeilingState.dpcpSystem
      rw [hres]
    have hmem := h.mem_iff j q
    by_cases hq : q = r
    · rw [if_pos hq, hq]
      by_cases hj : j = (type, (s.st.res r).cpu)
      · rw [hj, Function.update_self]
        simp [hown]
      · rw [Function.update_of_ne hj]
        refine iff_of_false (fun hin => ?_) fun hin => hj hin.2.symm
        by_cases hj' : j = s.st.dpcpSystem r
        · rw [hj', Function.update_self] at hin
          exact (List.nodup_cons.mp hnodup).1 hin
        · rw [Function.update_of_ne hj'] at hin
          exact hj' (h.home j r hin).symm
    · rw [if_neg hq, hsys, ← hmem]
      by_cases hj : j = (type, (s.st.res r).cpu)
      · rw [hj, Function.update_self, List.mem_cons, or_iff_right hq]
      · rw [Function.update_of_ne hj]
        by_cases hj' : j = s.st.dpcpSystem r
        · rw [hj', Function.update_self, hS, List.mem_cons, or_iff_right hq]
        · rw [Function.update_of_ne hj']
  have hnew := h'.prioLeast_top (s := s.st) hres (Function.update_self ..)
    (by rw [hprio, Function.update_self])
  have hoff : r ∉ Function.update (Function.update S (s.st.dpcpSystem r) rest)
      (type, (s.st.res r).cpu) (r :: S (type, (s.st.res r).cpu)) (s.st.dpcpSystem r) := by
    rw [Function.update_of_ne hne.symm, Function.update_self]
    exact (List.nodup_cons.mp hnodup).1
  have hold := h'.prioLeast_without (s := s.st) hres hoff
  rw [Function.update_of_ne hne.symm, Function.update_self, hprio, Function.update_of_ne hne.symm,
    Function.update_self] at hold
  have hrest : LeastCeiling (fun q => (s.st.res q).prioCeiling) {q | q ∈ rest} (topPrio s.st rest) ↔
      ∀ q ∈ rest, topPrio s.st rest ≤ (s.st.res q).prioCeiling := by
    cases rest with
    | nil => exact iff_of_true (Or.inl ⟨by simp, rfl⟩) fun q hq => absurd hq List.not_mem_nil
    | cons x l => exact leastCeiling_mem (f := fun q => (s.st.res q).prioCeiling) List.mem_cons_self
  rw [hset]
  simp only [Option.some.injEq, exists_eq_left', h'.right_iff, ← hnew, ← hrest, ← hold]
  constructor
  · intro hall
    exact ⟨hall (s.st.res r).type, hall type⟩
  · rintro ⟨ho, hn⟩ type'
    -- there are two types
    by_cases hk : (type', (s.st.res r).cpu) = s.st.dpcpSystem r
    · rw [hk]
      exact ho
    · have htype' : type' = type := by
        have h1 : type' ≠ (s.st.res r).type := fun he => hk (by rw [he]; rfl)
        cases type' <;> cases type <;> cases htr : (s.st.res r).type <;> simp_all
      rw [htype']
      exact hn

/-- A resource in use below the top, without a change of its type. -/
theorem dpcpSet_below (h : DpcpHolds s.st S Q)
    (hleast : ∀ type, s.st.PrioLeast (type, (s.st.res r).cpu)) (hcpu : (s.st.res r).cpu < CFG_MAX_CPU)
    (hr : r ∈ S (s.st.dpcpSystem r)) (htop : (S (s.st.dpcpSystem r)).head? ≠ some r)
    (htype : (s.st.res r).type = type) :
    (∃ s', acoralDpcpSet r type prioCeiling s = some s' ∧ DpcpRight s'.st (s.st.res r).cpu) ↔
      s.st.sysPrio (s.st.dpcpSystem r) ≤ prioCeiling.toNat ∧
        (prioCeiling.toNat = s.st.sysPrio (s.st.dpcpSystem r) ∨
          ∃ q ∈ S (s.st.dpcpSystem r), q ≠ r ∧
            (s.st.res q).prioCeiling = s.st.sysPrio (s.st.dpcpSystem r)) := by
  rw [← h.stackTop] at htop
  have hset : acoralDpcpSet r type prioCeiling s =
      some { s with st := s.st.setCeiling r type prioCeiling.toNat } := by
    simp [acoralDpcpSet, Nat.not_le.mpr hcpu, htop]
  have h' : DpcpHolds (s.st.setCeiling r type prioCeiling.toNat) S Q :=
    h.rewrite rfl rfl rfl prioCeiling.isLt fun _ => htype
  have hkeep : (s.st.setCeiling r type prioCeiling.toNat).PrioLeast (s.st.dpcpSystem r) ↔ _ :=
    (h'.prioLeast_iff (s.st.dpcpSystem r)).trans
      (leastCeiling_change hr ((h.prioLeast_iff (s.st.dpcpSystem r)).mp (hleast _)) fun q _ hq => by
        rw [setCeiling_prioCeiling, if_neg hq])
  rw [setCeiling_prioCeiling, if_pos rfl] at hkeep
  rw [hset]
  simp only [Option.some.injEq, exists_eq_left', h'.right_iff]
  refine Iff.trans ?_ hkeep
  constructor
  · intro hall
    exact hall (s.st.res r).type
  · intro hprio type'
    by_cases hk : (type', (s.st.res r).cpu) = s.st.dpcpSystem r
    · rw [hk]
      exact hprio
    · have hoff : r ∉ S (type', (s.st.res r).cpu) := fun hin => hk (h.home _ r hin).symm
      exact (h'.prioLeast_without (s := s.st) rfl hoff).mpr
        ((h.prioLeast_iff _).mp (hleast type'))

/-- A resource in use below the top, with a change of its type: it stays on the
stack of the old one. -/
theorem dpcpSet_stuck (h : DpcpHolds s.st S Q) (hcpu : (s.st.res r).cpu < CFG_MAX_CPU)
    (hr : r ∈ S (s.st.dpcpSystem r)) (htop : (S (s.st.dpcpSystem r)).head? ≠ some r)
    (htype : (s.st.res r).type ≠ type) {s' : DpcpData R T}
    (hset : acoralDpcpSet r type prioCeiling s = some s') : ¬ DpcpRight s'.st (s.st.res r).cpu := by
  rw [← h.stackTop] at htop
  obtain rfl : { s with st := s.st.setCeiling r type prioCeiling.toNat } = s' := by
    simpa [acoralDpcpSet, Nat.not_le.mpr hcpu, htop] using hset
  intro hright
  obtain ⟨l, hring, hin⟩ := hright.own r ((h.owned r).mp hr)
  rw [setCeiling_dpcpSystem, if_pos rfl] at hring
  have heq := hring.unique (h.ring (type, (s.st.res r).cpu))
  have hmem : (.stacking r : StackNode R DpcpSystem) ∈
      (S (type, (s.st.res r).cpu)).map .stacking := heq ▸ List.mem_map_of_mem hin
  obtain ⟨q, hq, hqr⟩ := List.mem_map.mp hmem
  obtain rfl := StackNode.stacking.inj hqr
  exact htype (congrArg Prod.fst (h.home _ q hq))

end Cases

/-- `acoral_dpcp_set` of any resource, with any resources in use in any order.
Before the call the systems of its CPU have the smallest ceilings of their
resources in use. Behind it everything is right if and only if the new type and
ceiling fit. -/
theorem dpcpSet_iff (s : DpcpData R T) (S W : DpcpSystem → List R)
    (Q : CeilingObj R DpcpSystem → List T) (r : R) (type : CeilingType) (prioCeiling : BitVec 8)
    (h : DpcpHolds s.st S Q) (hleast : ∀ type, s.st.PrioLeast (type, (s.st.res r).cpu))
    (hcpu : (s.st.res r).cpu < CFG_MAX_CPU) (hlisted : DpcpListed s.queue W)
    (hin : s.st.owner r ≠ none → ∃ k, r ∈ W k) :
    (∃ s', acoralDpcpSet r type prioCeiling s = some s' ∧ DpcpRight s'.st (s.st.res r).cpu) ↔
      RetypeFits s.st S r type prioCeiling.toNat := by
  by_cases hr : r ∈ S (s.st.dpcpSystem r)
  case neg => exact iff_of_true (dpcpSet_free h hleast hcpu hr) (.free hr)
  have hown : s.st.owner r ≠ none := (h.owned r).mp hr
  by_cases htop : (S (s.st.dpcpSystem r)).head? = some r
  case pos =>
    obtain ⟨rest, hS⟩ := List.head?_eq_some_iff.mp htop
    by_cases htype : (s.st.res r).type = type
    · rw [dpcpSet_top h hleast hcpu hS htype]
      refine ⟨.top hS htype, fun hfits => ?_⟩
      cases hfits with
      | free hfree => exact absurd hr hfree
      | top hS' _ hfit => exact (List.cons.inj (hS.symm.trans hS')).2 ▸ hfit
      | moved _ hmoved => exact absurd htype hmoved
      | below _ hbelow => exact absurd htop hbelow
    · rw [dpcpSet_moved h hcpu hlisted (hin hown) hS htype]
      refine ⟨fun hfit => .moved hS htype hfit.1 hfit.2, fun hfits => ?_⟩
      cases hfits with
      | free hfree => exact absurd hr hfree
      | top _ hkept => exact absurd hkept htype
      | moved hS' _ hold hnew =>
          obtain rfl := (List.cons.inj (hS.symm.trans hS')).2
          exact ⟨hold, hnew⟩
      | below _ hbelow => exact absurd htop hbelow
  case neg =>
    by_cases htype : (s.st.res r).type = type
    · rw [dpcpSet_below h hleast hcpu hr htop htype]
      refine ⟨fun hfit => .below hr htop htype hfit.1 hfit.2, fun hfits => ?_⟩
      cases hfits with
      | free hfree => exact absurd hr hfree
      | top hS => exact absurd (by rw [hS]; rfl) htop
      | moved hS => exact absurd (by rw [hS]; rfl) htop
      | below _ _ _ hle hfit => exact ⟨hle, hfit⟩
    · refine iff_of_false (fun ⟨s', hset, hright⟩ => ?_) fun hfits => ?_
      · exact dpcpSet_stuck h hcpu hr htop htype hset hright
      · cases hfits with
        | free hfree => exact hfree hr
        | top _ hkept => exact htype hkept
        | moved hS => exact htop (by rw [hS]; rfl)
        | below _ _ hkept => exact htype hkept

/-! ### Two resources in use -/

/-- The ring of CPU 0's local resources: `true` on top of `false`. -/
def twoOnStack (k : DpcpSystem) : List Bool := if k = (.LOCAL, 0) then [true, false] else []

/-- Two threads of the priorities 5 and 3 use the two local resources of CPU 0,
of the ceilings 4 and 3. -/
def twoHeld : DpcpData Bool (Fin 2) where
  st :=
    let s := CeilingState.start (readyThreads (fun t => if t = 0 then 5 else 3) fun _ => 0)
      (fun t => if t = 0 then 5 else 3) (fun _ => .ACORAL_PREEMPT_LOCAL) (fun _ => none)
      fun r => (.LOCAL, 0, if r then 3 else 4)
    { (s.take false 0).take true 1 with
      stack :=
        { next := fun
            | .head k         => if k = (.LOCAL, 0) then .stacking true else .head k
            | .stacking true  => .stacking false
            | .stacking false => .head (.LOCAL, 0)
          prev := fun
            | .head k         => if k = (.LOCAL, 0) then .stacking false else .head k
            | .stacking true  => .head (.LOCAL, 0)
            | .stacking false => .stacking true }
      sysPrio := Function.update (fun _ => ACORAL_MAX_PRIO_NUM) (.LOCAL, 0) 3 }
  queue :=
    { next := fun
        | .head k     => if k = (.LOCAL, 0) then .list true else .head k
        | .list true  => .list false
        | .list false => .head (.LOCAL, 0)
      prev := fun
        | .head k     => if k = (.LOCAL, 0) then .list false else .head k
        | .list true  => .head (.LOCAL, 0)
        | .list false => .list true }

theorem twoHeld_owner (r : Bool) : twoHeld.st.owner r = some (if r then 1 else 0) := by
  cases r <;> rfl

theorem twoHeld_holds : DpcpHolds twoHeld.st twoOnStack fun _ => [] := by
  refine ⟨⟨fun k => ?_, fun k q hq => ?_, fun q hq => ?_, fun q => rfl, fun q => ?_⟩, fun q => ?_,
    fun q => ?_, ⟨fun k => Links.isRing_nil rfl rfl, fun i j t ht => absurd ht List.not_mem_nil⟩⟩
  · by_cases hk : k = (.LOCAL, 0)
    · subst hk
      refine ⟨by decide, ?_⟩
      simp [twoOnStack, twoHeld, Links.Path, Links.Adj]
    · refine cast ?_ (Links.isRing_nil (L := twoHeld.st.stack) (h := .head k) ?_ ?_)
      · simp [twoOnStack, hk]
      · simp [twoHeld, hk]
      · simp [twoHeld, hk]
  · by_cases hk : k = (.LOCAL, 0)
    · exact hk.symm
    · simp [twoOnStack, hk] at hq
  · exact absurd (by cases q <;> decide) hq
  · cases q <;> decide
  · rw [twoHeld_owner]
    cases q <;> decide
  · cases q <;> exact ⟨rfl, rfl⟩

theorem twoHeld_least (type : CeilingType) : twoHeld.st.PrioLeast (type, 0) := by
  rw [twoHeld_holds.prioLeast_iff]
  cases type with
  | LOCAL =>
      have h3 : ∀ q ∈ {q | q ∈ twoOnStack (.LOCAL, 0)}, 3 ≤ (twoHeld.st.res q).prioCeiling := by
        intro q _
        cases q <;> decide
      exact (leastCeiling_mem (r := true) (f := fun q => (twoHeld.st.res q).prioCeiling)
        (by decide : true ∈ twoOnStack (.LOCAL, 0))).mpr h3
  | GLOBAL => exact Or.inl ⟨by ext q; simp [twoOnStack], rfl⟩

theorem twoHeld_listed : DpcpListed twoHeld.queue twoOnStack := by
  refine ⟨fun k => ?_, fun j k q hj hk => ?_⟩
  · by_cases hk : k = (.LOCAL, 0)
    · subst hk
      refine ⟨by decide, ?_⟩
      simp [twoOnStack, twoHeld, Links.Path, Links.Adj]
    · refine cast ?_ (Links.isRing_nil (L := twoHeld.queue) (h := .head k) ?_ ?_)
      · simp [twoOnStack, hk]
      · simp [twoHeld, hk]
      · simp [twoHeld, hk]
  · exact (twoHeld_holds.home j q hj).symm.trans (twoHeld_holds.home k q hk)

/-- The lower of the two resources becomes a global one. -/
theorem dpcpSet_iff_twoHeld :
    (∃ s', acoralDpcpSet false .GLOBAL 4 twoHeld = some s' ∧ DpcpRight s'.st 0) ↔
      RetypeFits twoHeld.st twoOnStack false .GLOBAL 4 :=
  dpcpSet_iff twoHeld twoOnStack twoOnStack (fun _ => []) false .GLOBAL 4 twoHeld_holds twoHeld_least
    (by decide) twoHeld_listed fun _ => ⟨(.LOCAL, 0), by decide⟩

/-- Its node stays on the stack of the local ones. Behind both posts that stack
is empty, but its system still has the priority 4. -/
theorem dpcpSet_strands :
    DpcpHolds twoHeld.st twoOnStack (fun _ => []) ∧ (∀ type, twoHeld.st.PrioLeast (type, 0)) ∧
    (¬ ∃ s', acoralDpcpSet false .GLOBAL 4 twoHeld = some s' ∧ DpcpRight s'.st 0) ∧
    ((acoralDpcpSet false .GLOBAL 4 twoHeld).bind fun s => dpcpPostAll [true, false] s.st).map
        (fun x => (x.1, x.2.stackTop (.LOCAL, 0), x.2.sysPrio (.LOCAL, 0))) =
      some ([.KR_OK, .KR_OK], none, 4) := by
  refine ⟨twoHeld_holds, twoHeld_least, fun ⟨s', hset, hright⟩ => ?_, by decide⟩
  exact dpcpSet_stuck twoHeld_holds (by decide) (by decide) (by decide) (by decide) hset hright

end ACoral
