import ACoral.Lib.Rounds

/-!
# `ACoral.Lib.Gates`: nodes that wait at each other's gates

Every node has a gate. A round of a node is to pass the gates of the nodes before
it, one after the other, to work, and to open its own gate. A node that comes to a
shut gate is blocked there, and woken when the gate opens. A new round shuts the
gates again: it is made known to its nodes (`behind`) one after the other, and each
of them shuts its gate and starts over.

So an open gate may be one of this round or one of the round before. `MayMove` is
what keeps the two apart: a node does not move while one before it has its gate open
from the last round.

* `GateInv`: the invariant. A gate that a node has passed stays open until its own
  round is over, and nodes joined by an edge are in the same round, up to the news
  that has not come to one of them;
* `GateStep.inv`: every step keeps it;
* `GateInv.mayBegin`: so the nodes work in rounds, as in `ACoral.Lib.Rounds`;
* `GateInv.no_waiter`: a node that shuts its gate finds nobody waiting at it.
-/

set_option autoImplicit false

namespace ACoral.Lib

/-- Where a node is in its round. -/
inductive Phase where
  /-- before its first round, its gate shut -/
  | shut
  /-- in front of gate `i` -/
  | facing (i : Nat)
  /-- waits for gate `i` to open -/
  | blocked (i : Nat)
  /-- gate `i` opened while it waited -/
  | woken (i : Nat)
  /-- all gates are passed -/
  | work
  /-- the work is done, the gate is shut yet -/
  | leaving
  /-- the gate is open -/
  | free
deriving DecidableEq, Repr

/-- The node is in a round whose work is not done. -/
def Phase.active : Phase → Bool
  | .facing _ | .blocked _ | .woken _ | .work => true
  | .shut | .leaving | .free                  => false

/-- How many of its `n` gates a node has passed in its last round. -/
def Phase.passed (n : Nat) : Phase → Nat
  | .shut                    => 0
  | .facing i | .blocked i   => i
  | .woken i                 => i + 1
  | .work | .leaving | .free => n

/-- The nodes, the news of the last round, and what they did. -/
structure Gates (T : Type) where
  phase : T → Phase
  /-- the nodes that the last round has not reached -/
  behind : List T
  history : List (RoundEvent T)

variable {T : Type} [DecidableEq T]

/-- What an opening gate `t` does to a node `s`. -/
def Phase.wake (before : T → List T) (t s : T) : Phase → Phase
  | .blocked i => if (before s)[i]? = some t then .woken i else .blocked i
  | phase      => phase

namespace Phase

variable (before : T → List T) (t s : T) (phase : Phase)

/-- An opening gate changes the phase of those blocked at it, and of nobody else. -/
theorem wake_cases :
    (∃ i, phase = .blocked i ∧ (before s)[i]? = some t ∧ phase.wake before t s = .woken i) ∨
      phase.wake before t s = phase ∧ ∀ i, phase = .blocked i → (before s)[i]? ≠ some t := by
  cases phase with
  | blocked i =>
      by_cases hgate : (before s)[i]? = some t
      · exact Or.inl ⟨i, rfl, hgate, if_pos hgate⟩
      · refine Or.inr ⟨if_neg hgate, fun j hj => ?_⟩
        cases hj
        exact hgate
  | shut => exact Or.inr ⟨rfl, fun _ hj => Phase.noConfusion hj⟩
  | facing _ => exact Or.inr ⟨rfl, fun _ hj => Phase.noConfusion hj⟩
  | woken _ => exact Or.inr ⟨rfl, fun _ hj => Phase.noConfusion hj⟩
  | work => exact Or.inr ⟨rfl, fun _ hj => Phase.noConfusion hj⟩
  | leaving => exact Or.inr ⟨rfl, fun _ hj => Phase.noConfusion hj⟩
  | free => exact Or.inr ⟨rfl, fun _ hj => Phase.noConfusion hj⟩

@[simp] theorem wake_active : (phase.wake before t s).active = phase.active := by
  rcases wake_cases before t s phase with ⟨i, rfl, -, hw⟩ | ⟨hw, -⟩ <;> rw [hw]
  rfl

/-- It changes no phase that is neither blocked nor woken. -/
theorem wake_eq_iff {phase' : Phase} (hblocked : ∀ i, phase' ≠ .blocked i)
    (hwoken : ∀ i, phase' ≠ .woken i) :
    phase.wake before t s = phase' ↔ phase = phase' := by
  rcases wake_cases before t s phase with ⟨i, rfl, -, hw⟩ | ⟨hw, -⟩ <;> rw [hw]
  exact iff_of_false (hwoken i).symm (hblocked i).symm

/-- A node that is woken has passed the gate. -/
theorem wake_passed {n i : Nat} (hi : i < (phase.wake before t s).passed n) :
    i < phase.passed n ∨ (before s)[i]? = some t := by
  rcases wake_cases before t s phase with ⟨j, rfl, hgate, hw⟩ | ⟨hw, -⟩ <;> rw [hw] at hi
  · rcases Nat.lt_or_eq_of_le (Nat.le_of_lt_succ hi) with hlt | rfl
    · exact Or.inl hlt
    · exact Or.inr hgate
  · exact Or.inl hi

end Phase

namespace Gates

/-- The round a node is in, or was in. -/
def round (g : Gates T) (t : T) : Nat :=
  finished g.history t + if (g.phase t).active then 1 else 0

/-- The round that the news of the last round puts a node in. -/
def target (g : Gates T) (t : T) : Nat := g.round t + if t ∈ g.behind then 1 else 0

/-- A node changes its phase. -/
def goto (g : Gates T) (t : T) (phase : Phase) : Gates T :=
  { g with phase := Function.update g.phase t phase }

/-- A node does not move while one before it has its gate open from the last round. -/
def MayMove (before : T → List T) (g : Gates T) (t : T) : Prop :=
  ∀ p ∈ before t, p ∈ g.behind → g.phase p = .shut

end Gates

/-- One step of one node, or a new round. -/
inductive GateStep (before : T → List T) (g : Gates T) : Gates T → Prop where
  /-- the next node learns of the round, and shuts its gate -/
  | release {t : T} {rest : List T} (hbehind : g.behind = t :: rest)
      (hphase : g.phase t = .shut ∨ g.phase t = .free) :
      GateStep before g { g.goto t (.facing 0) with behind := rest }
  /-- a new round of some nodes, together with those they share an edge with -/
  | round {nodes : List T} (hbehind : g.behind = []) (hnodup : nodes.Nodup)
      (hfree : ∀ t ∈ nodes, g.phase t = .free)
      (hedge : ∀ p t, p ∈ before t → (p ∈ nodes ↔ t ∈ nodes)) :
      GateStep before g { g with behind := nodes }
  | pass {t p : T} {i : Nat} (hmay : g.MayMove before t) (hphase : g.phase t = .facing i)
      (hgate : (before t)[i]? = some p) (hopen : g.phase p = .free) :
      GateStep before g (g.goto t (.facing (i + 1)))
  | block {t p : T} {i : Nat} (hmay : g.MayMove before t) (hphase : g.phase t = .facing i)
      (hgate : (before t)[i]? = some p) (hshut : g.phase p ≠ .free) :
      GateStep before g (g.goto t (.blocked i))
  | resume {t : T} {i : Nat} (hphase : g.phase t = .woken i) :
      GateStep before g (g.goto t (.facing (i + 1)))
  | work {t : T} (hphase : g.phase t = .facing (before t).length) :
      GateStep before g { g.goto t .work with history := .begin t :: g.history }
  | leave {t : T} (hphase : g.phase t = .work) :
      GateStep before g { g.goto t .leaving with history := .finish t :: g.history }
  | openGate {t : T} (hphase : g.phase t = .leaving) :
      GateStep before g
        { g with phase := Function.update (fun s => (g.phase s).wake before t s) t .free }

/-- The invariant. -/
structure GateInv (before : T → List T) (g : Gates T) : Prop where
  nodup : g.behind.Nodup
  rest : ∀ t ∈ g.behind, g.phase t = .shut ∨ g.phase t = .free
  shut : ∀ t, g.phase t = .shut → t ∈ g.behind
  bound : ∀ t, (g.phase t).passed (before t).length ≤ (before t).length
  /-- the gates that a node has passed in this round stay open -/
  passed : ∀ t i p, i < (g.phase t).passed (before t).length → (before t)[i]? = some p →
    t ∉ g.behind → p ∉ g.behind ∧ g.phase p = .free
  blocked : ∀ t i p, g.phase t = .blocked i → (before t)[i]? = some p → g.phase p ≠ .free
  /-- behind a gate of the last round everybody is at the start -/
  still : ∀ p t, p ∈ before t → p ∈ g.behind → g.phase p = .free →
    t ∈ g.behind ∨ g.phase t = .facing 0
  target : ∀ p t, p ∈ before t → g.target p = g.target t
  begun : ∀ t, begun g.history t = finished g.history t + if g.phase t = .work then 1 else 0
  rounds : InRounds (fun p t => p ∈ before t) g.history

namespace GateInv

variable {before : T → List T} {g : Gates T}

/-- Before the first round all nodes are behind, in any order. -/
theorem start {nodes : List T} (hnodup : nodes.Nodup) (hall : ∀ t, t ∈ nodes) :
    GateInv before ⟨fun _ => .shut, nodes, []⟩ where
  nodup := hnodup
  rest _ _ := Or.inl rfl
  shut t _ := hall t
  bound _ := Nat.zero_le _
  passed _ _ _ hi _ _ := absurd hi (Nat.not_lt_zero _)
  blocked _ _ _ hb _ := Phase.noConfusion hb
  still _ _ _ _ hf := Phase.noConfusion hf
  target p t _ := by simp [Gates.target, Gates.round, Phase.active, hall]
  begun _ := rfl
  rounds := trivial

/-- A node that has not heard of the round is at rest. -/
theorem notMem_behind (h : GateInv before g) {t : T} (hactive : (g.phase t).active = true) :
    t ∉ g.behind := by
  intro ht
  rcases h.rest t ht with hp | hp <;> rw [hp] at hactive <;> cases hactive

/-- A node that shuts its gate finds nobody waiting at it. -/
theorem no_waiter (h : GateInv before g) {p t : T} {i : Nat} (hp : p ∈ g.behind)
    (hopen : g.phase p = .free) (hgate : (before t)[i]? = some p) :
    g.phase t ≠ .blocked i ∧ g.phase t ≠ .woken i := by
  rcases h.still p t (List.mem_of_getElem? hgate) hp hopen with ht | ht
  · rcases h.rest t ht with hr | hr <;> rw [hr] <;> exact ⟨Phase.noConfusion, Phase.noConfusion⟩
  · rw [ht]
    exact ⟨Phase.noConfusion, Phase.noConfusion⟩

/-- In front of its work a node may begin: the nodes before it have finished this
round, and those behind it are through with the one before. -/
theorem mayBegin (h : GateInv before g) {t : T}
    (hphase : g.phase t = .facing (before t).length) :
    MayBegin (fun p t => p ∈ before t) g.history t := by
  have hactive : (g.phase t).active = true := by rw [hphase]; rfl
  have ht : t ∉ g.behind := h.notMem_behind hactive
  have hidle : Lib.begun g.history t = finished g.history t := by
    rw [h.begun t, hphase]
    rfl
  have hround : g.target t = finished g.history t + 1 := by
    simp [Gates.target, Gates.round, ht, hactive]
  constructor
  case idle => exact hidle
  case before =>
    intro p hp
    obtain ⟨i, hi, hgate⟩ := List.mem_iff_getElem.mp hp
    have hpast : i < (g.phase t).passed (before t).length := by rw [hphase]; exact hi
    obtain ⟨hpb, hfree⟩ := h.passed t i p hpast (List.getElem?_eq_some_iff.mpr ⟨hi, hgate⟩) ht
    have htarget := h.target p t hp
    have hbegun := h.begun p
    rw [hfree] at hbegun
    rw [hround] at htarget
    simp only [Gates.target, Gates.round, hfree, Phase.active, hpb, Bool.false_eq_true, if_false,
      Nat.add_zero] at htarget
    simp only [reduceCtorEq, if_false, Nat.add_zero] at hbegun
    omega
  case behind =>
    intro s hs
    have htarget := h.target t s hs
    rw [hround] at htarget
    rw [hidle]
    by_cases hsb : s ∈ g.behind
    · have hrest : (g.phase s).active = false := by
        rcases h.rest s hsb with hr | hr <;> rw [hr] <;> rfl
      simp only [Gates.target, Gates.round, hrest, hsb, Bool.false_eq_true, if_false,
        if_true] at htarget
      omega
    · -- the gate of `t` is shut, so `s` has still to pass it
      obtain ⟨i, hi, hgate⟩ := List.mem_iff_getElem.mp hs
      have hshut : ¬ i < (g.phase s).passed (before s).length := by
        intro hpast
        have hfree := (h.passed s i t hpast (List.getElem?_eq_some_iff.mpr ⟨hi, hgate⟩) hsb).2
        rw [hphase] at hfree
        cases hfree
      have hsactive : (g.phase s).active = true := by
        cases hps : g.phase s with
        | shut => exact absurd (h.shut s hps) hsb
        | leaving => rw [hps] at hshut; exact absurd hi hshut
        | free => rw [hps] at hshut; exact absurd hi hshut
        | facing _ => rfl
        | blocked _ => rfl
        | woken _ => rfl
        | work => rfl
      simp only [Gates.target, Gates.round, hsactive, hsb, if_true, if_false] at htarget
      omega

/-! ### Steps -/

/-- A node in its round moves on, its gate shut before and after. -/
theorem move (h : GateInv before g) {t : T} {phase : Phase} {history : List (RoundEvent T)}
    (ht : t ∉ g.behind) (hold : g.phase t ≠ .free) (hnew : phase ≠ .free) (hstarted : phase ≠ .shut)
    (hbound : phase.passed (before t).length ≤ (before t).length)
    (hpassed : ∀ i p, i < phase.passed (before t).length → (before t)[i]? = some p →
      p ∉ g.behind ∧ g.phase p = .free)
    (hblocked : ∀ i p, phase = .blocked i → (before t)[i]? = some p → g.phase p ≠ .free)
    (hstill : ∀ p ∈ before t, p ∈ g.behind → g.phase p = .free → phase = .facing 0)
    (hround : ∀ s, { g.goto t phase with history := history }.round s = g.round s)
    (hbegun : ∀ s, Lib.begun history s =
      finished history s + if (g.goto t phase).phase s = .work then 1 else 0)
    (hrounds : InRounds (fun p t => p ∈ before t) history) :
    GateInv before { g.goto t phase with history := history } := by
  have hself : (g.goto t phase).phase t = phase := Function.update_self _ _ _
  have hother : ∀ {s}, s ≠ t → (g.goto t phase).phase s = g.phase s :=
    fun hs => Function.update_of_ne hs _ _
  -- the same gates are open before and after
  have hfree : ∀ s, (g.goto t phase).phase s = .free ↔ g.phase s = .free := by
    intro s
    by_cases hs : s = t
    · rw [hs, hself]
      exact iff_of_false hnew hold
    · rw [hother hs]
  constructor
  case nodup => exact h.nodup
  case rest =>
    intro s hs
    have hne : s ≠ t := fun he => ht (he ▸ hs)
    show (g.goto t phase).phase s = _ ∨ (g.goto t phase).phase s = _
    rw [hother hne]
    exact h.rest s hs
  case shut =>
    intro s hs
    have hs : (g.goto t phase).phase s = .shut := hs
    by_cases hne : s = t
    · rw [hne, hself] at hs
      exact absurd hs hstarted
    · rw [hother hne] at hs
      exact h.shut s hs
  case bound =>
    intro s
    show ((g.goto t phase).phase s).passed _ ≤ _
    by_cases hne : s = t
    · rw [hne, hself]
      exact hbound
    · rw [hother hne]
      exact h.bound s
  case passed =>
    intro s i p hi hgate hs
    have hi : i < ((g.goto t phase).phase s).passed (before s).length := hi
    show p ∉ g.behind ∧ (g.goto t phase).phase p = .free
    rw [hfree p]
    by_cases hne : s = t
    · rw [hne, hself] at hi
      rw [hne] at hgate
      exact hpassed i p hi hgate
    · rw [hother hne] at hi
      exact h.passed s i p hi hgate hs
  case blocked =>
    intro s i p hs hgate
    have hs : (g.goto t phase).phase s = .blocked i := hs
    show ¬ (g.goto t phase).phase p = .free
    rw [hfree p]
    by_cases hne : s = t
    · rw [hne, hself] at hs
      rw [hne] at hgate
      exact hblocked i p hs hgate
    · rw [hother hne] at hs
      exact h.blocked s i p hs hgate
  case still =>
    intro p s hp hpb hpf
    have hpf : g.phase p = .free := (hfree p).mp hpf
    show s ∈ g.behind ∨ (g.goto t phase).phase s = .facing 0
    by_cases hne : s = t
    · rw [hne, hself]
      exact Or.inr (hstill p (hne ▸ hp) hpb hpf)
    · rw [hother hne]
      exact h.still p s hp hpb hpf
  case target =>
    intro p s hp
    have htarget := h.target p s hp
    unfold Gates.target at htarget ⊢
    rw [hround p, hround s]
    exact htarget
  case begun => exact hbegun
  case rounds => exact hrounds

/-- A move that leaves the history as it is. -/
theorem moveSilent (h : GateInv before g) {t : T} {phase : Phase}
    (hactive : (g.phase t).active = true) (hactive' : phase.active = true)
    (hwork : g.phase t ≠ .work) (hwork' : phase ≠ .work)
    (hbound : phase.passed (before t).length ≤ (before t).length)
    (hpassed : ∀ i p, i < phase.passed (before t).length → (before t)[i]? = some p →
      p ∉ g.behind ∧ g.phase p = .free)
    (hblocked : ∀ i p, phase = .blocked i → (before t)[i]? = some p → g.phase p ≠ .free)
    (hstill : ∀ p ∈ before t, p ∈ g.behind → g.phase p = .free → phase = .facing 0) :
    GateInv before (g.goto t phase) := by
  have hne : ∀ {ph : Phase}, ph.active = true → ph ≠ .free ∧ ph ≠ .shut := by
    intro ph hph
    constructor <;> intro he <;> rw [he] at hph <;> cases hph
  refine h.move (h.notMem_behind hactive) (hne hactive).1 (hne hactive').1 (hne hactive').2
    hbound hpassed hblocked hstill (fun s => ?_) (fun s => ?_) h.rounds
  · show finished g.history s + (if ((g.goto t phase).phase s).active then 1 else 0) = g.round s
    by_cases hs : s = t
    · rw [hs, show (g.goto t phase).phase t = phase from Function.update_self _ _ _, hactive']
      simp [Gates.round, hactive]
    · rw [show (g.goto t phase).phase s = g.phase s from Function.update_of_ne hs _ _]
      rfl
  · rw [h.begun s]
    by_cases hs : s = t
    · rw [hs, show (g.goto t phase).phase t = phase from Function.update_self _ _ _,
        if_neg hwork, if_neg hwork']
    · rw [show (g.goto t phase).phase s = g.phase s from Function.update_of_ne hs _ _]

/-- What a node in its round has passed is open, in this round. -/
theorem passed_active (h : GateInv before g) {t : T} (hactive : (g.phase t).active = true)
    {i : Nat} {p : T} (hi : i < (g.phase t).passed (before t).length)
    (hgate : (before t)[i]? = some p) : p ∉ g.behind ∧ g.phase p = .free :=
  h.passed t i p hi hgate (h.notMem_behind hactive)

/-- A node in its round is past its start, if one before it is behind with its gate open. -/
theorem still_active (h : GateInv before g) {t : T} (hactive : (g.phase t).active = true)
    (hphase : g.phase t ≠ .facing 0) {p : T} (hp : p ∈ before t) (hpb : p ∈ g.behind)
    (hopen : g.phase p = .free) : False := by
  rcases h.still p t hp hpb hopen with ht | ht
  · exact h.notMem_behind hactive ht
  · exact hphase ht

theorem release (h : GateInv before g) {t : T} {rest : List T} (hbehind : g.behind = t :: rest) :
    GateInv before { g.goto t (.facing 0) with behind := rest } := by
  have hnodup := h.nodup
  rw [hbehind, List.nodup_cons] at hnodup
  have hin : ∀ {s}, s ∈ rest → s ∈ g.behind := fun hs => hbehind ▸ List.mem_cons_of_mem t hs
  have hself : (g.goto t (.facing 0)).phase t = .facing 0 := Function.update_self _ _ _
  have hother : ∀ {s}, s ≠ t → (g.goto t (.facing 0)).phase s = g.phase s :=
    fun hs => Function.update_of_ne hs _ _
  have hrest : ∀ {s}, s ∈ rest → s ≠ t := fun hs he => hnodup.1 (he ▸ hs)
  have hiff : ∀ {s}, s ≠ t → (s ∈ rest ↔ s ∈ g.behind) := by
    intro s hs
    rw [hbehind, List.mem_cons, or_iff_right hs]
  have htb : t ∈ g.behind := hbehind ▸ List.mem_cons_self
  constructor
  case nodup => exact hnodup.2
  case rest =>
    intro s hs
    show (g.goto t (.facing 0)).phase s = _ ∨ (g.goto t (.facing 0)).phase s = _
    rw [hother (hrest hs)]
    exact h.rest s (hin hs)
  case shut =>
    intro s hs
    have hs : (g.goto t (.facing 0)).phase s = .shut := hs
    by_cases hne : s = t
    · rw [hne, hself] at hs
      cases hs
    · rw [hother hne] at hs
      exact (hiff hne).mpr (h.shut s hs)
  case bound =>
    intro s
    show ((g.goto t (.facing 0)).phase s).passed _ ≤ _
    by_cases hne : s = t
    · rw [hne, hself]
      exact Nat.zero_le _
    · rw [hother hne]
      exact h.bound s
  case passed =>
    intro s i p hi hgate hs
    have hi : i < ((g.goto t (.facing 0)).phase s).passed (before s).length := hi
    by_cases hne : s = t
    · rw [hne, hself] at hi
      exact absurd hi (Nat.not_lt_zero i)
    · rw [hother hne] at hi
      obtain ⟨hpb, hfree⟩ := h.passed s i p hi hgate fun hin => hs ((hiff hne).mpr hin)
      -- so `p` is not the node that shuts its gate
      have hpt : p ≠ t := fun he => hpb (he ▸ htb)
      refine ⟨fun hp => hpb (hin hp), ?_⟩
      show (g.goto t (.facing 0)).phase p = .free
      rw [hother hpt]
      exact hfree
  case blocked =>
    intro s i p hs hgate
    have hs : (g.goto t (.facing 0)).phase s = .blocked i := hs
    show ¬ (g.goto t (.facing 0)).phase p = .free
    by_cases hne : s = t
    · rw [hne, hself] at hs
      cases hs
    · rw [hother hne] at hs
      by_cases hpt : p = t
      · rw [hpt, hself]
        exact Phase.noConfusion
      · rw [hother hpt]
        exact h.blocked s i p hs hgate
  case still =>
    intro p s hp hpb hpf
    have hpf : (g.goto t (.facing 0)).phase p = .free := hpf
    rw [hother (hrest hpb)] at hpf
    show s ∈ rest ∨ (g.goto t (.facing 0)).phase s = .facing 0
    by_cases hne : s = t
    · rw [hne, hself]
      exact Or.inr rfl
    · rw [hother hne, hiff hne]
      exact h.still p s hp (hin hpb) hpf
  case target =>
    have htarget : ∀ s,
        Gates.target { g.goto t (.facing 0) with behind := rest } s = g.target s := by
      intro s
      show finished g.history s + (if ((g.goto t (.facing 0)).phase s).active then 1 else 0) +
        (if s ∈ rest then 1 else 0) = g.target s
      by_cases hne : s = t
      · have hidle : (g.phase t).active = false := by
          rcases h.rest t htb with hr | hr <;> rw [hr] <;> rfl
        have hold : g.target t = finished g.history t + 1 := by
          simp [Gates.target, Gates.round, hidle, htb]
        rw [hne, hself, hold, if_neg hnodup.1]
        rfl
      · rw [hother hne]
        simp [Gates.target, Gates.round, hiff hne]
    intro p s hp
    rw [htarget p, htarget s]
    exact h.target p s hp
  case begun =>
    intro s
    show Lib.begun g.history s =
      finished g.history s + if (g.goto t (.facing 0)).phase s = .work then 1 else 0
    rw [h.begun s]
    by_cases hne : s = t
    · have hidle : g.phase t ≠ .work := by
        rcases h.rest t htb with hr | hr <;> rw [hr] <;> exact Phase.noConfusion
      rw [hne, hself, if_neg hidle, if_neg Phase.noConfusion]
    · rw [hother hne]
  case rounds => exact h.rounds

theorem newRound (h : GateInv before g) {nodes : List T} (hbehind : g.behind = [])
    (hnodup : nodes.Nodup) (hfree : ∀ t ∈ nodes, g.phase t = .free)
    (hedge : ∀ p t, p ∈ before t → (p ∈ nodes ↔ t ∈ nodes)) :
    GateInv before { g with behind := nodes } := by
  have hnot : ∀ s, s ∉ g.behind := by
    intro s
    rw [hbehind]
    exact List.not_mem_nil
  constructor
  case nodup => exact hnodup
  case rest => exact fun t ht => Or.inr (hfree t ht)
  case shut => exact fun t ht => absurd (h.shut t ht) (hnot t)
  case bound => exact h.bound
  case passed =>
    intro t i p hi hgate ht
    obtain ⟨-, hopen⟩ := h.passed t i p hi hgate (hnot t)
    exact ⟨fun hp => ht ((hedge p t (List.mem_of_getElem? hgate)).mp hp), hopen⟩
  case blocked => exact h.blocked
  case still => exact fun p t hp hpb _ => Or.inl ((hedge p t hp).mp hpb)
  case target =>
    intro p t hp
    have hround : g.round p = g.round t := by
      have htarget := h.target p t hp
      simpa [Gates.target, hnot] using htarget
    show g.round p + (if p ∈ nodes then 1 else 0) = g.round t + if t ∈ nodes then 1 else 0
    rw [hround]
    simp only [hedge p t hp]
  case begun => exact h.begun
  case rounds => exact h.rounds

/-- A gate opens, and those who wait at it are woken. -/
theorem opened (h : GateInv before g) {t : T}
    (hphase : g.phase t = .leaving) :
    GateInv before
      { g with phase := Function.update (fun s => (g.phase s).wake before t s) t .free } := by
  set phase := Function.update (fun s => (g.phase s).wake before t s) t .free with hdef
  have hself : phase t = .free := Function.update_self _ _ _
  have hother : ∀ {s}, s ≠ t → phase s = (g.phase s).wake before t s :=
    fun hs => Function.update_of_ne hs _ _
  have htb : t ∉ g.behind := by
    intro ht
    rcases h.rest t ht with hr | hr <;> rw [hphase] at hr <;> cases hr
  have hfree : ∀ {s}, g.phase s = .free → phase s = .free := by
    intro s hs
    by_cases hne : s = t
    · rw [hne, hself]
    · rw [hother hne, hs]
      rfl
  have hactive : ∀ s, (phase s).active = (g.phase s).active := by
    intro s
    by_cases hne : s = t
    · rw [hne, hself, hphase]
      rfl
    · rw [hother hne, Phase.wake_active]
  have hkeep : ∀ {s ph}, s ≠ t → (∀ i, ph ≠ .blocked i) → (∀ i, ph ≠ .woken i) →
      (phase s = ph ↔ g.phase s = ph) := by
    intro s ph hne hb hw
    rw [hother hne]
    exact Phase.wake_eq_iff before t s _ hb hw
  constructor
  case nodup => exact h.nodup
  case rest =>
    intro s hs
    have hne : s ≠ t := fun he => htb (he ▸ hs)
    show phase s = _ ∨ phase s = _
    rw [hkeep hne (fun _ => Phase.noConfusion) (fun _ => Phase.noConfusion),
      hkeep hne (fun _ => Phase.noConfusion) (fun _ => Phase.noConfusion)]
    exact h.rest s hs
  case shut =>
    intro s hs
    have hs : phase s = .shut := hs
    by_cases hne : s = t
    · rw [hne, hself] at hs
      cases hs
    · rw [hkeep hne (fun _ => Phase.noConfusion) (fun _ => Phase.noConfusion)] at hs
      exact h.shut s hs
  case bound =>
    intro s
    show (phase s).passed _ ≤ _
    by_cases hne : s = t
    · rw [hne, hself]
      exact Nat.le_refl _
    · have hbound := h.bound s
      rw [hother hne]
      rcases Phase.wake_cases before t s (g.phase s) with ⟨i, hi, hgate, hw⟩ | ⟨hw, -⟩
      · rw [hw]
        exact (List.getElem?_eq_some_iff.mp hgate).1
      · rw [hw]
        exact hbound
  case passed =>
    intro s i p hi hgate hs
    show p ∉ g.behind ∧ phase p = .free
    have hi : i < (phase s).passed (before s).length := hi
    by_cases hne : s = t
    · -- the node that opens its gate has passed all of its own
      subst hne
      have hlen : i < (before s).length := (List.getElem?_eq_some_iff.mp hgate).1
      obtain ⟨hpb, hpf⟩ := h.passed s i p (by rw [hphase]; exact hlen) hgate hs
      exact ⟨hpb, hfree hpf⟩
    · rw [hother hne] at hi
      rcases Phase.wake_passed before t s _ hi with hi | ht
      · obtain ⟨hpb, hpf⟩ := h.passed s i p hi hgate hs
        exact ⟨hpb, hfree hpf⟩
      · have hpt : p = t := Option.some.inj (hgate.symm.trans ht)
        rw [hpt]
        exact ⟨htb, hself⟩
  case blocked =>
    intro s i p hs hgate
    have hs : phase s = .blocked i := hs
    show ¬ phase p = .free
    by_cases hne : s = t
    · rw [hne, hself] at hs
      cases hs
    · rw [hother hne] at hs
      rcases Phase.wake_cases before t s (g.phase s) with ⟨j, -, -, hw⟩ | ⟨hw, hstill⟩
      · rw [hw] at hs
        cases hs
      · rw [hw] at hs
        have hpt : p ≠ t := fun he => hstill i hs (he ▸ hgate)
        rw [hkeep hpt (fun _ => Phase.noConfusion) (fun _ => Phase.noConfusion)]
        exact h.blocked s i p hs hgate
  case still =>
    intro p s hp hpb hpf
    have hpf : phase p = .free := hpf
    have hpt : p ≠ t := fun he => htb (he ▸ hpb)
    rw [hkeep hpt (fun _ => Phase.noConfusion) (fun _ => Phase.noConfusion)] at hpf
    show s ∈ g.behind ∨ phase s = .facing 0
    rcases h.still p s hp hpb hpf with hs | hs
    · exact Or.inl hs
    · have hst : s ≠ t := by
        intro he
        rw [he, hphase] at hs
        cases hs
      right
      rw [hkeep hst (fun _ => Phase.noConfusion) (fun _ => Phase.noConfusion)]
      exact hs
  case target =>
    have htarget : ∀ s, Gates.target { g with phase := phase } s = g.target s := by
      intro s
      show finished g.history s + (if (phase s).active then 1 else 0) + _ = _
      rw [hactive s]
      rfl
    intro p s hp
    rw [htarget p, htarget s]
    exact h.target p s hp
  case begun =>
    intro s
    show Lib.begun g.history s = finished g.history s + if phase s = .work then 1 else 0
    rw [h.begun s]
    by_cases hne : s = t
    · rw [hne, hself, hphase]
      rfl
    · have hiff : phase s = .work ↔ g.phase s = .work :=
        hkeep hne (fun _ => Phase.noConfusion) (fun _ => Phase.noConfusion)
      simp only [hiff]
  case rounds => exact h.rounds

end GateInv

/-- Every step keeps the invariant. -/
theorem GateStep.inv {before : T → List T} {g g' : Gates T} (hstep : GateStep before g g')
    (h : GateInv before g) : GateInv before g' := by
  cases hstep with
  | release hbehind _ => exact h.release hbehind
  | round hbehind hnodup hfree hedge => exact h.newRound hbehind hnodup hfree hedge
  | @pass t p i hmay hphase hgate hopen =>
      have hactive : (g.phase t).active = true := by rw [hphase]; rfl
      have hmem := List.mem_of_getElem? hgate
      have hpb : p ∉ g.behind := by
        intro hp
        have hshut := hmay p hmem hp
        rw [hopen] at hshut
        cases hshut
      refine h.moveSilent hactive rfl (by rw [hphase]; exact Phase.noConfusion)
        Phase.noConfusion (List.getElem?_eq_some_iff.mp hgate).1 (fun j q hj hq => ?_)
        (fun j _ hj => Phase.noConfusion hj) fun q hq hqb hqf => ?_
      · rcases Nat.lt_or_eq_of_le (Nat.le_of_lt_succ hj) with hlt | rfl
        · exact h.passed_active hactive (by rw [hphase]; exact hlt) hq
        · obtain rfl : p = q := Option.some.inj (hgate.symm.trans hq)
          exact ⟨hpb, hopen⟩
      · have hshut := hmay q hq hqb
        rw [hqf] at hshut
        cases hshut
  | @block t p i hmay hphase hgate hshut =>
      have hactive : (g.phase t).active = true := by rw [hphase]; rfl
      refine h.moveSilent hactive rfl (by rw [hphase]; exact Phase.noConfusion)
        Phase.noConfusion (Nat.le_of_lt (List.getElem?_eq_some_iff.mp hgate).1)
        (fun j q hj hq => h.passed_active hactive (by rw [hphase]; exact hj) hq)
        (fun j q hj hq => ?_) fun q hq hqb hqf => ?_
      · cases hj
        obtain rfl : p = q := Option.some.inj (hgate.symm.trans hq)
        exact hshut
      · have hqs := hmay q hq hqb
        rw [hqf] at hqs
        cases hqs
  | @resume t i hphase =>
      have hactive : (g.phase t).active = true := by rw [hphase]; rfl
      have hbound := h.bound t
      rw [hphase] at hbound
      refine h.moveSilent hactive rfl (by rw [hphase]; exact Phase.noConfusion)
        Phase.noConfusion hbound
        (fun j q hj hq => h.passed_active hactive (by rw [hphase]; exact hj) hq)
        (fun j _ hj => Phase.noConfusion hj) fun q hq hqb hqf => ?_
      exact (h.still_active hactive (by rw [hphase]; exact Phase.noConfusion) hq hqb hqf).elim
  | @work t hphase =>
      have hactive : (g.phase t).active = true := by rw [hphase]; rfl
      have hself : (g.goto t .work).phase t = .work := Function.update_self _ _ _
      have hother : ∀ {s}, s ≠ t → (g.goto t .work).phase s = g.phase s :=
        fun hs => Function.update_of_ne hs _ _
      refine h.move (h.notMem_behind hactive) (by rw [hphase]; exact Phase.noConfusion)
        Phase.noConfusion Phase.noConfusion (Nat.le_refl _)
        (fun j q hj hq => h.passed_active hactive (by rw [hphase]; exact hj) hq)
        (fun j _ hj => Phase.noConfusion hj) (fun q hq hqb hqf => ?_) (fun s => ?_) (fun s => ?_)
        ⟨h.mayBegin hphase, h.rounds⟩
      · exfalso
        rcases h.still q t hq hqb hqf with ht | ht
        · exact h.notMem_behind hactive ht
        · -- a node in front of gate 0 and of its work has no gate
          rw [hphase, Phase.facing.injEq, List.length_eq_zero_iff] at ht
          rw [ht] at hq
          cases hq
      · show finished (.begin t :: g.history) s +
          (if ((g.goto t .work).phase s).active then 1 else 0) = g.round s
        rw [finished_cons_begin]
        by_cases hs : s = t
        · rw [hs, hself]
          simp [Gates.round, hphase, Phase.active]
        · rw [hother hs]
          rfl
      · have hbegun := h.begun s
        rw [begun_cons_begin, finished_cons_begin, hbegun]
        by_cases hs : s = t
        · simp [hs, hself, hphase]
        · rw [hother hs, if_neg (Ne.symm hs), Nat.add_zero]
  | @leave t hphase =>
      have hactive : (g.phase t).active = true := by rw [hphase]; rfl
      have hself : (g.goto t .leaving).phase t = .leaving := Function.update_self _ _ _
      have hother : ∀ {s}, s ≠ t → (g.goto t .leaving).phase s = g.phase s :=
        fun hs => Function.update_of_ne hs _ _
      have hrunning : begun g.history t = finished g.history t + 1 := by
        rw [h.begun t, hphase]
        rfl
      refine h.move (h.notMem_behind hactive) (by rw [hphase]; exact Phase.noConfusion)
        Phase.noConfusion Phase.noConfusion (Nat.le_refl _)
        (fun j q hj hq => h.passed_active hactive (by rw [hphase]; exact hj) hq)
        (fun j _ hj => Phase.noConfusion hj) (fun q hq hqb hqf => ?_) (fun s => ?_) (fun s => ?_)
        ⟨hrunning, h.rounds⟩
      · exact (h.still_active hactive (by rw [hphase]; exact Phase.noConfusion) hq hqb hqf).elim
      · show finished (.finish t :: g.history) s +
          (if ((g.goto t .leaving).phase s).active then 1 else 0) = g.round s
        rw [finished_cons_finish]
        by_cases hs : s = t
        · rw [hs, hself, if_pos rfl]
          simp [Gates.round, hphase, Phase.active]
        · rw [hother hs, if_neg (Ne.symm hs)]
          rfl
      · have hbegun := h.begun s
        rw [begun_cons_finish, finished_cons_finish, hbegun]
        by_cases hs : s = t
        · simp [hs, hself, hphase]
        · rw [hother hs, if_neg (Ne.symm hs), Nat.add_zero]
  | openGate hphase => exact h.opened hphase

end ACoral.Lib
