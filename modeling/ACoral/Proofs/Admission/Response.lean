import ACoral.Kernel.AdmisCtl
import ACoral.Lib.Ascend
import Mathlib.Algebra.Order.Field.Basic
import Mathlib.Data.Rat.Floor

/-!
# `ACoral.Proofs.Admission.Response`: the response-time iteration

Every latency grows with the time it is computed for. The terms that do not
depend on the time, such as the delay that `h_g_time` finds for one request,
are the same in each round. So the iteration ascends, and it ends at the
least fixed point or above the deadline.

- `latencyTTime_mono`, `latencyNgTime_mono`, `latencyGTime_mono`: the
  latencies are monotone.
- `hGTime_total`: the loop of `h_g_time` ends.
- `responseTime_spec`: what `response_time` answers.
-/

set_option autoImplicit false

namespace ACoral

open Lib (ascend AscendResult LeastFixed foldl_le_foldl le_foldl)

variable {K R : Type} [DecidableEq K] [DecidableEq R]

/-! ### Demand -/

omit [DecidableEq R] in
theorem AdmisCtlData.demand_mono (d : AdmisCtlData R) {t t' : Nat} (h : t ≤ t') (c : Nat) :
    d.demand t c ≤ d.demand t' c := by
  unfold AdmisCtlData.demand
  rw [Nat.ceilDiv_eq_add_pred_div, Nat.ceilDiv_eq_add_pred_div]
  exact Nat.mul_le_mul_right c (Nat.div_le_div_right (by omega))

omit [DecidableEq R] in
/-- The quotient is rounded up, as `ceil` does with the exact one. -/
theorem AdmisCtlData.demand_eq_ceil (d : AdmisCtlData R) (hperiod : 0 < d.periodTime)
    (t c : Nat) :
    d.demand t c = ⌈((t + d.wcrt - c : Nat) : ℚ) / d.periodTime⌉₊ * c := by
  have hceil : (t + d.wcrt - c) ⌈/⌉ d.periodTime =
      ⌈((t + d.wcrt - c : Nat) : ℚ) / d.periodTime⌉₊ := by
    refine eq_of_forall_ge_iff fun n => ?_
    rw [ceilDiv_le_iff_le_mul hperiod, Nat.ceil_le, div_le_iff₀ (by exact_mod_cast hperiod),
      mul_comm d.periodTime n]
    norm_cast
  unfold AdmisCtlData.demand
  rw [hceil]

namespace AdmisTables

variable {s : AdmisTables K R} {t t' ret ret' : Nat}

theorem resDemand_mono (r : R) (d : AdmisCtlData R) (ht : t ≤ t') (hret : ret ≤ ret') :
    resDemand t r d ret ≤ resDemand t' r d ret' := by
  refine foldl_le_foldl _ hret fun x _ a b hab => ?_
  split
  · exact Nat.add_le_add hab (d.demand_mono ht _)
  · exact hab

theorem le_resDemand (t : Nat) (r : R) (d : AdmisCtlData R) (ret : Nat) :
    ret ≤ resDemand t r d ret := by
  refine le_foldl _ ret fun x _ c => ?_
  split
  · exact Nat.le_add_right c _
  · exact Nat.le_refl c

omit [DecidableEq K] in
theorem higherDemand_mono (r : R) (data : AdmisCtlData R) (ks : List K) (ht : t ≤ t')
    (hret : ret ≤ ret') : s.higherDemand t r data ks ret ≤ s.higherDemand t' r data ks ret' := by
  induction ks generalizing ret ret' with
  | nil => exact hret
  | cons k ks ih =>
      unfold higherDemand
      dsimp only
      split
      · exact ih (resDemand_mono r _ ht hret)
      · exact hret

omit [DecidableEq K] in
theorem le_higherDemand (t : Nat) (r : R) (data : AdmisCtlData R) (ks : List K) (ret : Nat) :
    ret ≤ s.higherDemand t r data ks ret := by
  induction ks generalizing ret with
  | nil => exact Nat.le_refl ret
  | cons k ks ih =>
      unfold higherDemand
      dsimp only
      split
      · exact Nat.le_trans (le_resDemand t r _ ret) (ih _)
      · exact Nat.le_refl ret

omit [DecidableEq K] [DecidableEq R] in
theorem latencyNgTime_mono (data : K) (ht : t ≤ t') :
    s.latencyNgTime t data ≤ s.latencyNgTime t' data := by
  have hloop : ∀ (ks : List K) (ret ret' : Nat), ret ≤ ret' →
      s.latencyNgLoop t (s.ctl data) ks ret ≤ s.latencyNgLoop t' (s.ctl data) ks ret' := by
    intro ks
    induction ks with
    | nil => exact fun ret ret' h => h
    | cons k ks ih =>
        intro ret ret' h
        unfold latencyNgLoop
        dsimp only
        split
        · exact ih _ _ (Nat.add_le_add h ((s.ctl k).demand_mono ht _))
        · split
          · exact h
          · exact ih _ _ h
  exact hloop s.queue 0 0 (Nat.le_refl 0)

end AdmisTables

/-! ### Timed threads -/

theorem epsilon_mono {t t' : Nat} (h : t ≤ t') (l : List (Nat × Nat)) :
    epsilon t l ≤ epsilon t' l := by
  induction l with
  | nil => exact Nat.le_refl 0
  | cons p l ih =>
      unfold epsilon
      split
      · rw [if_pos (by omega)]
        exact Nat.add_le_add_left ih _
      · exact Nat.zero_le _

theorem epsilon_le_sum (t : Nat) (l : List (Nat × Nat)) :
    epsilon t l ≤ (l.map Prod.snd).sum := by
  induction l with
  | nil => exact Nat.le_refl 0
  | cons p l ih =>
      unfold epsilon
      rw [List.map_cons, List.sum_cons]
      split
      · exact Nat.add_le_add_left ih _
      · exact Nat.zero_le _

/-- The busy time up to `x`, with all periods before. -/
theorem busyTime_mono (period : Nat) {x y sum : Nat} {l : List (Nat × Nat)}
    (hsum : sum = (l.map Prod.snd).sum) (h : x ≤ y) :
    sum * (x / period) + epsilon (x % period) l ≤ sum * (y / period) + epsilon (y % period) l := by
  have hdiv := Nat.div_le_div_right (c := period) h
  rcases Nat.eq_or_lt_of_le hdiv with heq | hlt
  · -- in one period
    have hmod : x % period ≤ y % period := by
      have hx := Nat.div_add_mod x period
      have hy := Nat.div_add_mod y period
      rw [heq] at hx
      omega
    rw [heq]
    exact Nat.add_le_add_left (epsilon_mono hmod l) _
  · -- a whole period takes all of the intervals
    have hall : epsilon (x % period) l ≤ sum := hsum ▸ epsilon_le_sum _ l
    calc sum * (x / period) + epsilon (x % period) l
        ≤ sum * (x / period) + sum := Nat.add_le_add_left hall _
      _ = sum * (x / period + 1) := (Nat.mul_succ _ _).symm
      _ ≤ sum * (y / period) := Nat.mul_le_mul_left _ hlt
      _ ≤ sum * (y / period) + epsilon (y % period) l := Nat.le_add_right _ _

namespace AdmisTables

variable {s : AdmisTables K R} {t t' : Nat}

/-- The recorded total of each table is the sum of the lengths. -/
def TimedSums (s : AdmisTables K R) : Prop :=
  ∀ cpu, s.timedTimeSum cpu = ((s.timedTime cpu).map Prod.snd).sum

omit [DecidableEq K] [DecidableEq R] in
theorem latencyTTime_mono (hsum : s.TimedSums) (ht : t ≤ t') (cpu : Nat) :
    s.latencyTTime t cpu ≤ s.latencyTTime t' cpu := by
  refine foldl_le_foldl _ (Nat.le_refl 0) fun p _ a b hab => ?_
  have hbusy := busyTime_mono (s.timedHPeriod cpu) (hsum cpu) (Nat.add_le_add_left ht p.1)
  dsimp only
  generalize s.timedTimeSum cpu * ((p.1 + t) / s.timedHPeriod cpu) + _ = x at hbusy ⊢
  generalize s.timedTimeSum cpu * ((p.1 + t') / s.timedHPeriod cpu) + _ = y at hbusy ⊢
  split <;> split <;> omega

/-! ### One request of a global resource -/

omit [DecidableEq K] in
theorem hGRound_mono (hsum : s.TimedSums) (start cpu : Nat) (data : K) :
    Monotone (s.hGRound start cpu data) := fun h h' hh => by
  unfold hGRound
  refine Nat.add_le_add (foldl_le_foldl _ (Nat.le_refl start) fun r _ a b hab => ?_)
    (latencyTTime_mono hsum hh cpu)
  exact higherDemand_mono r _ _ hh hab

omit [DecidableEq K] in
theorem le_hGRound (start cpu : Nat) (data : K) (h : Nat) : start ≤ s.hGRound start cpu data h :=
  Nat.le_trans (le_foldl _ start fun r _ c => le_higherDemand h r _ _ c) (Nat.le_add_right _ _)

omit [DecidableEq K] in
theorem hGLoop_eq (start cpu : Nat) (data : K) (fuel h : Nat) :
    s.hGLoop start cpu data fuel h =
      (ascend (s.hGRound start cpu data) (s.ctl data).dlTime fuel h).map
        (·.getD ((s.ctl data).dlTime + 100)) := by
  induction fuel generalizing h with
  | zero => rfl
  | succ fuel ih =>
      unfold hGLoop ascend
      dsimp only
      split
      · split
        · rfl
        · exact ih _
      · rfl

omit [DecidableEq K] in
/-- The loop of `h_g_time` ends. -/
theorem hGTime_total (hsum : s.TimedSums) (start cpu : Nat) (data : K) {fuel : Nat}
    (hfuel : (s.ctl data).dlTime + 2 ≤ fuel) : ∃ h, s.hGTime fuel start cpu data = some h := by
  obtain ⟨res, hres, -⟩ := Lib.ascend_spec (hGRound_mono hsum start cpu data)
    (s.ctl data).dlTime fuel (Nat.le_refl start) (le_hGRound start cpu data start)
    (fun t ht _ => ht) (by omega) (by omega)
  exact ⟨_, by rw [hGTime, hGLoop_eq, hres]; rfl⟩

end AdmisTables

/-! ### Global resources -/

/-- The same variables, but for the two sums that depend on the time. -/
structure GlobalLatency.Le (acc acc' : GlobalLatency) : Prop where
  flag : acc'.flag = acc.flag
  nThis : acc'.nThis = acc.nThis
  lThis : acc'.lThis = acc.lThis
  ddG : acc'.ddG = acc.ddG
  globalLMax : acc'.globalLMax = acc.globalLMax
  pdG : acc.pdG ≤ acc'.pdG
  ret : acc.ret ≤ acc'.ret

namespace AdmisTables

variable {s : AdmisTables K R} {t t' : Nat} {acc acc' : GlobalLatency}

omit [DecidableEq K] in
theorem ownUse_le (r : R) (data : K) (h : acc.Le acc') :
    (s.ownUse r data acc).Le (s.ownUse r data acc') := by
  unfold ownUse
  generalize (s.ctl data).resQueue = l
  induction l generalizing acc acc' with
  | nil => exact h
  | cons x l ih =>
      refine ih ?_
      dsimp only
      split
      · exact ⟨h.flag, rfl, rfl, h.ddG, h.globalLMax, h.pdG, h.ret⟩
      · exact h

omit [DecidableEq K] in
/-- The loop that adds up `DD_g` does the same for any time. -/
theorem ddGLoop_le (hsum : s.TimedSums) {fuel : Nat} {data : K}
    (hfuel : (s.ctl data).dlTime + 2 ≤ fuel) (cpu : Nat) (rs : List R) (h : acc.Le acc') :
    (s.ddGLoop fuel cpu data rs acc = some none ∧ s.ddGLoop fuel cpu data rs acc' = some none) ∨
      ∃ b b', s.ddGLoop fuel cpu data rs acc = some (some b) ∧
        s.ddGLoop fuel cpu data rs acc' = some (some b') ∧ b.Le b' := by
  induction rs generalizing acc acc' with
  | nil => exact Or.inr ⟨acc, acc', rfl, rfl, h⟩
  | cons r rs ih =>
      unfold ddGLoop
      dsimp only
      have huse := ownUse_le (s := s) r data h
      generalize s.ownUse r data acc = a at huse ⊢
      generalize s.ownUse r data acc' = a' at huse ⊢
      rw [huse.lThis, huse.globalLMax]
      obtain ⟨hGBound, hbound⟩ :=
        hGTime_total hsum (a.lThis + s.longestLower r cpu data a.globalLMax) cpu data hfuel
      rw [hbound, Option.bind_some, Option.bind_some]
      split
      · exact ih ⟨huse.flag, huse.nThis, rfl, by rw [huse.ddG, huse.nThis], rfl, huse.pdG,
          huse.ret⟩
      · exact Or.inl ⟨rfl, rfl⟩

theorem ownCpuDemand_mono (ht : t ≤ t') (cpu : Nat) (data : K) {ret ret' : Nat}
    (hret : ret ≤ ret') : s.ownCpuDemand t cpu data ret ≤ s.ownCpuDemand t' cpu data ret' := by
  refine foldl_le_foldl _ hret fun r _ a b hab => foldl_le_foldl _ hab fun k _ c d hcd => ?_
  split
  · exact resDemand_mono r _ ht hcd
  · exact hcd

theorem pdGDemand_mono (ht : t ≤ t') (cpu : Nat) (data : K) {ret ret' : Nat}
    (hret : ret ≤ ret') : s.pdGDemand t cpu data ret ≤ s.pdGDemand t' cpu data ret' := by
  refine foldl_le_foldl _ hret fun r _ a b hab => foldl_le_foldl _ hab fun k _ c d hcd => ?_
  split
  · refine foldl_le_foldl _ hcd fun x _ e f hef => ?_
    split
    · exact Nat.add_le_add_right hef _
    · exact hef
  · exact resDemand_mono r _ ht hcd

/-- The loop over the CPUs ends, with a later sum for a later time. -/
theorem latencyGLoop_le (hsum : s.TimedSums) {fuel : Nat} {data : K}
    (hfuel : (s.ctl data).dlTime + 2 ≤ fuel) (ht : t ≤ t') (cpus : List Nat) (h : acc.Le acc') :
    ∃ v v', s.latencyGLoop fuel t data cpus acc = some v ∧
      s.latencyGLoop fuel t' data cpus acc' = some v' ∧ v ≤ v' := by
  induction cpus generalizing acc acc' with
  | nil => exact ⟨acc.ret, acc'.ret, rfl, rfl, h.ret⟩
  | cons i cpus ih =>
      unfold latencyGLoop
      dsimp only
      split
      · exact ih ⟨h.flag, h.nThis, h.lThis, h.ddG, h.globalLMax, h.pdG,
          ownCpuDemand_mono ht i data h.ret⟩
      · rw [h.flag]
        split
        · exact ih ⟨rfl, h.nThis, h.lThis, h.ddG, h.globalLMax, h.pdG, h.ret⟩
        · have hpd := Nat.add_le_add (pdGDemand_mono (s := s) ht i data h.pdG)
            (latencyTTime_mono hsum ht i)
          have hacc : GlobalLatency.Le
              { acc with
                flag := acc.flag || s.usesGlobal i data
                pdG := s.pdGDemand t i data acc.pdG + s.latencyTTime t i }
              { acc' with
                flag := acc.flag || s.usesGlobal i data
                pdG := s.pdGDemand t' i data acc'.pdG + s.latencyTTime t' i } :=
            ⟨rfl, h.nThis, h.lThis, h.ddG, h.globalLMax, hpd, h.ret⟩
          rcases ddGLoop_le hsum hfuel i (s.dpcpQueue .GLOBAL i) hacc with
            ⟨hnone, hnone'⟩ | ⟨b, b', hb, hb', hle⟩
          · rw [hnone, hnone']
            exact ⟨_, _, rfl, rfl, Nat.le_refl _⟩
          · rw [hb, hb']
            have hmin : (if b.pdG < b.ddG then b.pdG else b.ddG) ≤
                if b'.pdG < b'.ddG then b'.pdG else b'.ddG := by
              have hdd := hle.ddG
              have hpdG := hle.pdG
              split <;> split <;> omega
            exact ih ⟨hle.flag, hle.nThis, hle.lThis, hle.ddG, hle.globalLMax, hle.pdG,
              Nat.add_le_add hle.ret hmin⟩

/-- `latency_g_time` ends for each time, and is monotone. -/
theorem latencyGTime_mono (hsum : s.TimedSums) {fuel : Nat} {data : K}
    (hfuel : (s.ctl data).dlTime + 2 ≤ fuel) :
    ∃ g : Nat → Nat, (∀ t, s.latencyGTime fuel t data = some (g t)) ∧ Monotone g := by
  have hself : ∀ acc : GlobalLatency, acc.Le acc := fun acc =>
    ⟨rfl, rfl, rfl, rfl, rfl, Nat.le_refl _, Nat.le_refl _⟩
  have htotal : ∀ t, ∃ v, s.latencyGTime fuel t data = some v := fun t => by
    obtain ⟨v, -, hv, -⟩ := latencyGLoop_le hsum hfuel (Nat.le_refl t) (List.range CFG_MAX_CPU)
      (hself ⟨false, 0, 0, 0, 0, 0, 0⟩)
    exact ⟨v, hv⟩
  choose g hg using htotal
  refine ⟨g, hg, fun t t' ht => ?_⟩
  obtain ⟨v, v', hv, hv', hle⟩ := latencyGLoop_le hsum hfuel ht (List.range CFG_MAX_CPU)
    (hself ⟨false, 0, 0, 0, 0, 0, 0⟩)
  have hgt : g t = v := Option.some.inj ((hg t).symm.trans hv)
  have hgt' : g t' = v' := Option.some.inj ((hg t').symm.trans hv')
  rw [hgt, hgt']
  exact hle

/-! ### The response time -/

/-- The worst-case execution time and the latencies within `t`, when `g` is
the latency of global resources. -/
def demandBound (s : AdmisTables K R) (data : K) (g : Nat → Nat) (t : Nat) : Nat :=
  (s.ctl data).wcet + s.latencyNgTime t data + s.latencyTTime t (s.ctl data).cpu + g t

omit [DecidableEq K] [DecidableEq R] in
theorem demandBound_mono (hsum : s.TimedSums) (data : K) {g : Nat → Nat} (hg : Monotone g) :
    Monotone (s.demandBound data g) := fun _ _ h =>
  Nat.add_le_add (Nat.add_le_add (Nat.add_le_add_left (latencyNgTime_mono data h) _)
    (latencyTTime_mono hsum h _)) (hg h)

/-- What `response_time` answers for what the iteration finds. -/
def responseAnswer (s : AdmisTables K R) (data : K) : Option Nat → Nat
  | some r =>
      if s.latencyBTime data > (s.ctl data).dlTime then (s.ctl data).dlTime + 100
      else r + s.latencyBTime data
  | none   => (s.ctl data).dlTime + 100

/-- The loop of `response_time` is the iteration of `demandBound`. It may
return earlier, if a latency alone exceeds the deadline: then the next value
would have. -/
theorem responseLoop_eq {gFuel : Nat} {data : K} {g : Nat → Nat}
    (hg : ∀ t, s.latencyGTime gFuel t data = some (g t)) {fuel x : Nat} {res : Option Nat}
    (hres : ascend (s.demandBound data g) (s.ctl data).dlTime fuel x = some res) :
    s.responseLoop gFuel data fuel x = some (s.responseAnswer data res) := by
  induction fuel generalizing x with
  | zero => simp [ascend] at hres
  | succ fuel ih =>
      unfold ascend at hres
      unfold responseLoop
      dsimp only
      by_cases hx : x ≤ (s.ctl data).dlTime
      · rw [if_pos hx] at hres ⊢
        have hbound : s.demandBound data g x = (s.ctl data).wcet + s.latencyNgTime x data +
            s.latencyTTime x (s.ctl data).cpu + g x := rfl
        -- an early return
        have hearly : (s.ctl data).dlTime < s.demandBound data g x →
            some ((s.ctl data).dlTime + 100) = some (s.responseAnswer data res) := fun hlt => by
          rw [if_neg (by omega)] at hres
          cases fuel with
          | zero => simp [ascend] at hres
          | succ fuel =>
              rw [ascend, if_neg (Nat.not_le_of_lt hlt)] at hres
              rw [← Option.some.inj hres]
              rfl
        split
        · exact hearly (by omega)
        · split
          · exact hearly (by omega)
          · rw [hg, Option.bind_some]
            split
            · exact hearly (by omega)
            · rw [← hbound]
              by_cases hfix : x = s.demandBound data g x
              · rw [if_pos hfix] at hres ⊢
                rw [← Option.some.inj hres]
                unfold responseAnswer
                split <;> rfl
              · rw [if_neg hfix] at hres ⊢
                exact ih hres
      · rw [if_neg hx] at hres ⊢
        rw [← Option.some.inj hres]
        rfl

/-- The loops of `response_time` and `h_g_time` end, and `response_time`
answers a value that is not above the deadline exactly when the iteration has
a least fixed point from the worst-case execution time on that, with the
latency of local resources, meets the deadline. It answers that sum. -/
theorem responseTime_spec (s : AdmisTables K R) (data : K) (hsum : s.TimedSums)
    {gFuel fuel : Nat} (hgFuel : (s.ctl data).dlTime + 2 ≤ gFuel)
    (hfuel : (s.ctl data).dlTime + 2 ≤ fuel) :
    (∀ start cpu, ∃ h, s.hGTime gFuel start cpu data = some h) ∧
      ∃ (g : Nat → Nat) (v : Nat), (∀ t, s.latencyGTime gFuel t data = some (g t)) ∧
        s.responseTime gFuel fuel data = some v ∧
        (v ≤ (s.ctl data).dlTime ↔
          ∃ r, LeastFixed (s.demandBound data g) (s.ctl data).wcet r ∧ r ≤ (s.ctl data).dlTime ∧
            r + s.latencyBTime data ≤ (s.ctl data).dlTime) ∧
        (v ≤ (s.ctl data).dlTime → ∀ r,
          LeastFixed (s.demandBound data g) (s.ctl data).wcet r → v = r + s.latencyBTime data) := by
  refine ⟨fun start cpu => hGTime_total hsum start cpu data hgFuel, ?_⟩
  obtain ⟨g, hg, hmono⟩ := latencyGTime_mono hsum hgFuel
  have hwcet : (s.ctl data).wcet ≤ s.demandBound data g (s.ctl data).wcet := by
    unfold demandBound
    omega
  obtain ⟨res, hres, hfound⟩ := Lib.ascend_spec (demandBound_mono hsum data hmono)
    (s.ctl data).dlTime fuel (Nat.le_refl (s.ctl data).wcet) hwcet (fun t ht _ => ht) (by omega)
    (by omega)
  refine ⟨g, s.responseAnswer data res, hg, responseLoop_eq hg hres, ?_⟩
  cases res with
  | none =>
      -- every fixed point is above the deadline
      have hnot : ¬ s.responseAnswer data none ≤ (s.ctl data).dlTime := by
        show ¬ _ + 100 ≤ _
        omega
      refine ⟨⟨fun h => absurd h hnot, ?_⟩, fun h => absurd h hnot⟩
      rintro ⟨r, hleast, hr, -⟩
      exact absurd (hfound r hleast.1.1 hleast.1.2) (Nat.not_lt_of_le hr)
  | some r =>
      obtain ⟨hleast, hr⟩ := hfound
      unfold responseAnswer
      dsimp only
      split
      · refine ⟨⟨fun h => by omega, ?_⟩, fun h => by omega⟩
        rintro ⟨r', hleast', -, hr'⟩
        omega
      · refine ⟨⟨fun h => ⟨r, hleast, hr, h⟩, ?_⟩, fun _ r' hleast' => ?_⟩
        · rintro ⟨r', hleast', -, hr'⟩
          rwa [hleast.unique hleast']
        · rw [hleast.unique hleast']

/-- A thread of 2 ticks that has to end within 10, on a CPU whose first 3
ticks of every 10 are taken by a timed thread. -/
def oneThread : AdmisTables Nat Nat where
  queue := [0]
  ctl := fun _ => ⟨0, 10, 2, 10, 10, [], 30, 30, false⟩
  dpcp := fun _ => ⟨0, .LOCAL, 30, true, 30, .LOCAL, 1⟩
  dpcpQueue := fun _ _ => []
  timedTime := fun _ => [(0, 3)]
  timedTimeSum := fun _ => 3
  timedHPeriod := fun _ => 10

/-- Its response time is 5, the least fixed point. -/
theorem responseTime_spec_oneThread :
    oneThread.responseTime 12 12 0 = some 5 ∧
      ∃ g r, LeastFixed (oneThread.demandBound 0 g) 2 r ∧ r + oneThread.latencyBTime 0 ≤ 10 := by
  have hv : oneThread.responseTime 12 12 0 = some 5 := by decide
  obtain ⟨-, g, v, -, hv', hiff, -⟩ := responseTime_spec oneThread 0 (fun _ => rfl)
    (by decide : (oneThread.ctl 0).dlTime + 2 ≤ 12) (by decide : (oneThread.ctl 0).dlTime + 2 ≤ 12)
  obtain rfl : 5 = v := Option.some.inj (hv.symm.trans hv')
  obtain ⟨r, hleast, -, hr⟩ := hiff.mp (by decide)
  exact ⟨hv, g, r, hleast, hr⟩

end AdmisTables

end ACoral
