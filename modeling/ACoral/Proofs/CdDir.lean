import ACoral.Kernel.CdDir
import Mathlib.Tactic.Common

/-!
# `ACoral.Proofs.CdDir`: when `cd` changes the directory

A round of the loop takes one component off, and `path` is the rendered directory after it
(`innerStep_render`, `lastStep_render`). `Joined` describes the argument component by
component.

A component that has others behind it and cannot be opened is not taken off, and the block for
it is not freed. What the loop allocated in such a round stays allocated, whether it ever
returns (`cdLoop_scratch_le`) or not (`cdLoop_stuck`). `changesDir_iff` is the result.
-/

set_option autoImplicit false

namespace ACoral

variable {opens : List UInt8 → Bool} {fuel : Nat} {s s' : CdShell}
  {dir : List (List UInt8)} {arg c rest path : List UInt8}

/-! ### Strings -/

theorem acoralStrChr_of_notMem {x : UInt8} {l : List UInt8} (hx : x ≠ 0) (h : x ∉ l) (pos : Nat) :
    acoralStrChr x l pos = 0 := by
  induction l generalizing pos with
  | nil => exact if_neg hx
  | cons y l ih =>
      rw [List.mem_cons, not_or] at h
      rw [acoralStrChr, if_neg (Ne.symm h.1)]
      exact ih h.2 (pos + 1)

theorem acoralStrChr_append {x : UInt8} {l : List UInt8} (h : x ∉ l) (r : List UInt8) (pos : Nat) :
    acoralStrChr x (l ++ x :: r) pos = pos + l.length := by
  induction l generalizing pos with
  | nil => exact if_pos rfl
  | cons y l ih =>
      rw [List.mem_cons, not_or] at h
      rw [List.cons_append, acoralStrChr, if_neg (Ne.symm h.1), ih h.2, List.length_cons]
      omega

/-- The place of the 0. -/
theorem acoralStrChr_zero {l : List UInt8} (h : 0 ∉ l) (pos : Nat) :
    acoralStrChr 0 l pos = pos + l.length := by
  induction l generalizing pos with
  | nil => rfl
  | cons y l ih =>
      rw [List.mem_cons, not_or] at h
      rw [acoralStrChr, if_neg (Ne.symm h.1), ih h.2, List.length_cons]
      omega

/-- The characters behind the last `x` are passed one after the other. -/
theorem rchrLoop_append {x : UInt8} {r : List UInt8} (h : x ∉ r) (l : List UInt8) {k : Nat}
    (hk : k ≤ r.length) : rchrLoop x (l ++ x :: r) (l.length + 1 + k) = l.length + 1 := by
  induction k with
  | zero =>
      have hget : (l ++ x :: r)[l.length]? = some x := by
        rw [List.getElem?_append_right (Nat.le_refl _), Nat.sub_self]
        rfl
      rw [Nat.add_zero, rchrLoop, if_pos hget]
  | succ k ih =>
      have hget : (l ++ x :: r)[l.length + 1 + k]? = r[k]? := by
        rw [List.getElem?_append_right (by omega), Nat.add_assoc, Nat.add_sub_cancel_left,
          Nat.add_comm, List.getElem?_cons_succ]
      have hne : (l ++ x :: r)[l.length + 1 + k]? ≠ some x := by
        rw [hget]
        intro hx
        exact h (List.mem_of_getElem? hx)
      rw [← Nat.add_assoc, rchrLoop, if_neg hne]
      exact ih (by omega)

theorem acoralStrRchr_append {x : UInt8} {r : List UInt8} (h : x ∉ r) (l : List UInt8) :
    acoralStrRchr x (l ++ x :: r) = l.length + 1 := by
  have hlen : (l ++ x :: r).length = l.length + 1 + r.length := by
    rw [List.length_append, List.length_cons]
    omega
  rw [acoralStrRchr, hlen]
  exact rchrLoop_append h l (Nat.le_refl _)

theorem cutSlash_eq (h : 0 ∉ arg) :
    cutSlash arg = if arg.getLast? = some SLASH then arg.dropLast else arg := by
  unfold cutSlash
  rw [acoralStrChr_zero h, List.getLast?_eq_getElem?, List.dropLast_eq_take]
  by_cases hnil : arg = []
  · rw [hnil]
    rfl
  · have hpos := List.length_pos_of_ne_nil hnil
    have hlast : (((1 + arg.length : Nat) : Int) - 2).toNat = arg.length - 1 := by omega
    simp only [hlast]
    exact if_congr (and_iff_right (by omega)) rfl rfl

/-! ### Directories -/

theorem render_append (dir : List (List UInt8)) (name : List UInt8) :
    render (dir ++ [name]) = render dir ++ SLASH :: name := by
  rw [render, List.flatMap_append, List.flatMap_singleton]
  rfl

/-- The path is cut at its last slash. -/
theorem upDir_render (h : ∀ name ∈ dir, SLASH ∉ name) :
    upDir (render dir) = render dir.dropLast := by
  rcases List.eq_nil_or_concat' dir with rfl | ⟨init, name, rfl⟩
  · rfl
  · have hname : SLASH ∉ name := h name (by simp)
    have hpos : (((render init).length + 1 : Nat) : Int) - 1 = (render init).length := by omega
    unfold upDir
    rw [List.dropLast_concat, render_append, acoralStrRchr_append hname]
    simp only [hpos]
    rw [if_pos (by omega), Int.toNat_natCast, List.take_left]

theorem length_render_dropLast_le (dir : List (List UInt8)) :
    (render dir.dropLast).length ≤ (render dir).length := by
  rcases List.eq_nil_or_concat' dir with rfl | ⟨init, name, rfl⟩
  · exact Nat.le_refl _
  · rw [List.dropLast_concat, render_append, List.length_append]
    exact Nat.le_add_right _ _

theorem catPath_name (name : List UInt8) :
    ((catPath (render dir) [SLASH]).bind fun path => catPath path name) =
      if (render (dir ++ [name])).length < ASH_CMD_SIZE then some (render (dir ++ [name]))
      else none := by
  unfold catPath
  rw [render_append]
  by_cases hroom : (render dir).length + [SLASH].length < ASH_CMD_SIZE
  · rw [if_pos hroom, Option.bind_some, List.append_assoc, List.length_append, List.length_append,
      List.length_cons, List.length_cons, List.length_nil]
    exact if_congr (by omega) rfl rfl
  · rw [if_neg hroom, Option.bind_none, if_neg]
    rw [List.length_append, List.length_cons]
    rw [List.length_singleton] at hroom
    omega

section Apply

variable (hnames : ∀ name ∈ dir, SLASH ∉ name) (hshort : (render dir).length < ASH_CMD_SIZE)
include hnames hshort

/-- A component that has others behind it. -/
theorem innerStep_render (c : List UInt8) :
    innerStep c (render dir) =
      if (render (applyComponent dir c)).length < ASH_CMD_SIZE then
        some (render (applyComponent dir c))
      else none := by
  have hup := length_render_dropLast_le dir
  unfold innerStep applyComponent
  by_cases hdd : c = DOTDOT
  · rw [if_pos hdd, if_pos hdd, upDir_render hnames, if_pos (by omega)]
  rw [if_neg hdd, if_neg hdd]
  by_cases hd : c = DOT
  · rw [if_neg (not_not.mpr hd), if_pos hd, if_pos hshort]
  · rw [if_pos hd, if_neg hd]
    exact catPath_name c

/-- The last component. -/
theorem lastStep_render (c : List UInt8) :
    lastStep c (render dir) =
      if (render (applyComponent dir c)).length < ASH_CMD_SIZE then
        some (showDir (applyComponent dir c))
      else none := by
  have hup := length_render_dropLast_le dir
  unfold lastStep applyComponent showDir
  by_cases hdd : c = DOTDOT
  · rw [if_pos hdd, if_pos hdd, upDir_render hnames, if_pos (by omega)]
  rw [if_neg hdd, if_neg hdd]
  by_cases hd : c = DOT
  · rw [if_pos hd, if_pos hd, if_pos hshort]
  · have hne : render (dir ++ [c]) ≠ [] := by
      rw [render_append]
      exact List.append_ne_nil_of_right_ne_nil _ (List.cons_ne_nil _ _)
    rw [if_neg hd, if_neg hd, rootIfEmpty, if_neg hne]
    exact catPath_name c

end Apply

/-! ### Rounds of the loop -/

/-- An argument without its slash at the start. -/
def dropSlash (arg : List UInt8) : List UInt8 :=
  if arg.head? = some SLASH then arg.drop 1 else arg

theorem cdLoop_succ (arg path : List UInt8) (s : CdShell) :
    cdLoop opens (fuel + 1) arg path s =
      if (acoralStrChr SLASH (dropSlash arg) 1 : Int) - 1 ≥ 0 then
        (innerStep ((dropSlash arg).take ((acoralStrChr SLASH (dropSlash arg) 1 : Int) - 1).toNat)
          path).bind fun path =>
            if opens path then
              cdLoop opens fuel
                ((dropSlash arg).drop ((acoralStrChr SLASH (dropSlash arg) 1 : Int) - 1).toNat)
                path s
            else cdLoop opens fuel (dropSlash arg) path { s with scratch := s.scratch + 1 }
      else
        (lastStep (dropSlash arg) path).map fun path => if opens path then s.setDir path else s :=
  rfl

/-- The round of the last component. -/
theorem cdLoop_last (hrest : SLASH ∉ dropSlash arg) (path : List UInt8) (s : CdShell) :
    cdLoop opens (fuel + 1) arg path s =
      (lastStep (dropSlash arg) path).map fun path => if opens path then s.setDir path else s := by
  have hpos : acoralStrChr SLASH (dropSlash arg) 1 = 0 :=
    acoralStrChr_of_notMem (by decide) hrest 1
  rw [cdLoop_succ, hpos, if_neg (by decide)]

/-- The round of a component that has others behind it. -/
theorem cdLoop_inner (hc : SLASH ∉ c) (harg : dropSlash arg = c ++ SLASH :: rest)
    (path : List UInt8) (s : CdShell) :
    cdLoop opens (fuel + 1) arg path s =
      (innerStep c path).bind fun path =>
        if opens path then cdLoop opens fuel (SLASH :: rest) path s
        else cdLoop opens fuel (c ++ SLASH :: rest) path { s with scratch := s.scratch + 1 } := by
  have hpos : ((acoralStrChr SLASH (dropSlash arg) 1 : Nat) : Int) - 1 = c.length := by
    rw [harg, acoralStrChr_append hc]
    omega
  rw [cdLoop_succ, hpos, if_pos (by omega), Int.toNat_natCast, harg, List.take_left,
    List.drop_left]

/-- What is allocated before the loop stays allocated. -/
theorem cdLoop_scratch_le (h : cdLoop opens fuel arg path s = some s') :
    s.scratch ≤ s'.scratch := by
  induction fuel generalizing arg path s with
  | zero => exact absurd h nofun
  | succ fuel ih =>
      by_cases hrest : SLASH ∈ dropSlash arg
      · obtain ⟨c, rest, harg, hc⟩ := List.eq_append_cons_of_mem hrest
        rw [cdLoop_inner hc harg, Option.bind_eq_some_iff] at h
        obtain ⟨path', -, h⟩ := h
        by_cases hopen : opens path' = true
        · rw [if_pos hopen] at h
          exact ih h
        · rw [if_neg hopen] at h
          exact Nat.le_trans (Nat.le_succ _) (ih h)
      · rw [cdLoop_last hrest, Option.map_eq_some_iff] at h
        obtain ⟨path', -, rfl⟩ := h
        unfold CdShell.setDir
        split
        · split <;> exact Nat.le_refl _
        · exact Nat.le_refl _

/-- If nothing can be opened, the loop does not get past a first component. -/
theorem cdLoop_stuck (hopens : ∀ path, opens path = false) (hc : SLASH ∉ c) (hne : c ≠ []) :
    cdLoop opens fuel (c ++ SLASH :: rest) path s = none := by
  induction fuel generalizing path s with
  | zero => rfl
  | succ fuel ih =>
      have hhead : dropSlash (c ++ SLASH :: rest) = c ++ SLASH :: rest := by
        obtain ⟨x, c, rfl⟩ := List.exists_cons_of_ne_nil hne
        rw [List.mem_cons, not_or] at hc
        exact if_neg (fun h => hc.1 (Option.some.inj h).symm)
      rw [cdLoop_inner hc hhead, Option.bind_eq_none_iff]
      intro path' _
      rw [hopens, if_neg Bool.false_ne_true]
      exact ih

/-! ### The argument, component by component -/

/-- The components with slashes in between. -/
inductive Joined : (arg : List UInt8) → (comps : List (List UInt8)) → Prop
  | one {c : List UInt8} : SLASH ∉ c → Joined c [c]
  | cons {c b rest : List UInt8} {cs : List (List UInt8)} :
      SLASH ∉ c → Joined rest (b :: cs) → Joined (c ++ SLASH :: rest) (c :: b :: cs)

theorem joined_splitOn (arg : List UInt8) : Joined arg (arg.splitOn SLASH) := by
  induction hlen : arg.length using Nat.strongRecOn generalizing arg with
  | _ n ih =>
      by_cases hmem : SLASH ∈ arg
      · obtain ⟨c, rest, rfl, hc⟩ := List.eq_append_cons_of_mem hmem
        have hshorter : rest.length < n := by
          rw [← hlen, List.length_append, List.length_cons]
          omega
        have hrest := ih rest.length hshorter rest rfl
        rw [List.splitOn_append_cons_self_of_not_mem hc]
        obtain ⟨b, cs, hcs⟩ := List.exists_cons_of_ne_nil (List.splitOn_ne_nil SLASH rest)
        rw [hcs] at hrest ⊢
        exact .cons hc hrest
      · rw [List.splitOn_eq_singleton hmem]
        exact .one hmem

/-- What `ChangesDir` says, for the rest of the argument. -/
def LoopChangesDir (opens : List UInt8 → Bool) (arg : List UInt8) (s : CdShell)
    (dir comps : List (List UInt8)) : Prop :=
  ∃ fuel s', cdLoop opens fuel arg (render dir) s = some s' ∧ s'.scratch = s.scratch ∧
    (AllOpen opens dir comps → s'.curDir = showDir (comps.foldl applyComponent dir)) ∧
    (¬ AllOpen opens dir comps → s'.curDir = s.curDir)

theorem applyComponent_names (h : ∀ name ∈ dir, SLASH ∉ name) (hc : SLASH ∉ c) :
    ∀ name ∈ applyComponent dir c, SLASH ∉ name := by
  unfold applyComponent
  split
  · exact fun name hname => h name ((List.dropLast_sublist dir).subset hname)
  split
  · exact h
  · intro name hname
    rcases List.mem_append.mp hname with hold | hnew
    · exact h name hold
    · rw [List.mem_singleton.mp hnew]
      exact hc

theorem dropSlash_cons (rest : List UInt8) : dropSlash (SLASH :: rest) = rest := rfl

theorem CdShell.setDir_curDir (path : List UInt8) (s : CdShell) :
    (s.setDir path).curDir = path := by
  unfold CdShell.setDir
  by_cases hsame : s.curDir = path
  · rw [if_neg (not_not.mpr hsame), hsame]
  · rw [if_pos hsame]

theorem CdShell.setDir_scratch (path : List UInt8) (s : CdShell) :
    (s.setDir path).scratch = s.scratch := by
  unfold CdShell.setDir
  split <;> rfl

/-- The last component is answered as it should be, if its path has room. -/
theorem loopChangesDir_one (hc : SLASH ∉ c) (harg : dropSlash arg = c)
    (hnames : ∀ name ∈ dir, SLASH ∉ name) (hshort : (render dir).length < ASH_CMD_SIZE) :
    LoopChangesDir opens arg s dir [c] ↔
      (render (applyComponent dir c)).length < ASH_CMD_SIZE := by
  have hround : ∀ fuel, cdLoop opens (fuel + 1) arg (render dir) s =
      (lastStep c (render dir)).map fun path => if opens path then s.setDir path else s := by
    intro fuel
    rw [← harg] at hc
    rw [cdLoop_last hc, harg]
  rw [lastStep_render hnames hshort] at hround
  by_cases hfits : (render (applyComponent dir c)).length < ASH_CMD_SIZE
  · refine iff_of_true ?_ hfits
    rw [if_pos hfits, Option.map_some] at hround
    refine ⟨1, _, hround 0, ?_⟩
    show _ ∧ (opens (showDir (applyComponent dir c)) = true → _ = showDir (applyComponent dir c)) ∧
      (¬ opens (showDir (applyComponent dir c)) = true → _)
    by_cases hopen : opens (showDir (applyComponent dir c)) = true
    · rw [if_pos hopen, CdShell.setDir_scratch, CdShell.setDir_curDir]
      exact ⟨rfl, fun _ => rfl, absurd hopen⟩
    · rw [if_neg hopen]
      exact ⟨rfl, fun h => absurd h hopen, fun _ => rfl⟩
  · refine iff_of_false ?_ hfits
    rw [if_neg hfits, Option.map_none] at hround
    rintro ⟨fuel, s', hrun, -⟩
    cases fuel with
    | zero      => exact absurd hrun nofun
    | succ fuel => exact absurd ((hround fuel).symm.trans hrun) nofun

/-- A component that has others behind it has to fit and to open. Otherwise the block for it
stays allocated. -/
theorem loopChangesDir_cons {b : List UInt8} {cs : List (List UInt8)} (hc : SLASH ∉ c)
    (harg : dropSlash arg = c ++ SLASH :: rest) (hnames : ∀ name ∈ dir, SLASH ∉ name)
    (hshort : (render dir).length < ASH_CMD_SIZE) :
    LoopChangesDir opens arg s dir (c :: b :: cs) ↔
      (render (applyComponent dir c)).length < ASH_CMD_SIZE ∧
      opens (render (applyComponent dir c)) = true ∧
      LoopChangesDir opens (SLASH :: rest) s (applyComponent dir c) (b :: cs) := by
  have hround := fun fuel => @cdLoop_inner opens fuel arg c rest hc harg (render dir) s
  simp only [innerStep_render hnames hshort] at hround
  by_cases hfits : (render (applyComponent dir c)).length < ASH_CMD_SIZE
  · simp only [if_pos hfits, Option.bind_some] at hround
    rw [and_iff_right hfits]
    by_cases hopen : opens (render (applyComponent dir c)) = true
    · simp only [if_pos hopen] at hround
      rw [and_iff_right hopen]
      have hall : AllOpen opens dir (c :: b :: cs) ↔
          AllOpen opens (applyComponent dir c) (b :: cs) := and_iff_right hopen
      unfold LoopChangesDir
      rw [hall]
      constructor
      · rintro ⟨fuel, s', hrun, hmeets⟩
        cases fuel with
        | zero      => exact absurd hrun nofun
        | succ fuel => exact ⟨fuel, s', (hround fuel).symm.trans hrun, hmeets⟩
      · rintro ⟨fuel, s', hrun, hmeets⟩
        exact ⟨fuel + 1, s', (hround fuel).trans hrun, hmeets⟩
    · simp only [if_neg hopen] at hround
      refine iff_of_false ?_ (fun h => hopen h.1)
      rintro ⟨fuel, s', hrun, hscratch, -⟩
      cases fuel with
      | zero      => exact absurd hrun nofun
      | succ fuel =>
          have hle := cdLoop_scratch_le ((hround fuel).symm.trans hrun)
          exact absurd hscratch (Nat.ne_of_gt hle)
  · simp only [if_neg hfits, Option.bind_none] at hround
    refine iff_of_false ?_ (fun h => hfits h.1)
    rintro ⟨fuel, s', hrun, -⟩
    cases fuel with
    | zero      => exact absurd hrun nofun
    | succ fuel => exact absurd ((hround fuel).symm.trans hrun) nofun

theorem loopChangesDir_iff {comps : List (List UInt8)} (h : Joined rest comps)
    (harg : dropSlash arg = rest) (hnames : ∀ name ∈ dir, SLASH ∉ name)
    (hshort : (render dir).length < ASH_CMD_SIZE) :
    LoopChangesDir opens arg s dir comps ↔ Passable opens dir comps := by
  induction h generalizing arg dir s with
  | one hc =>
      exact loopChangesDir_one hc harg hnames hshort
  | cons hc hrest ih =>
      rw [loopChangesDir_cons hc harg hnames hshort]
      refine and_congr_right fun hfits => and_congr_right fun hopen => ?_
      exact ih (dropSlash_cons _) (applyComponent_names hnames hc) hfits

/-! ### The command -/

/-- The copy of the current directory, and its string after the root. -/
theorem ShowsDir.startPath (h : ShowsDir s dir) :
    (if s.curDir ≠ [SLASH] then catPath [] s.curDir else some []) = some (render dir) := by
  have hshort := h.short
  have hcur := h.curDir
  by_cases hnil : dir = []
  · rw [if_neg (not_not.mpr (by rw [hcur, hnil]; rfl)), hnil]
    rfl
  · obtain ⟨init, name, hdir⟩ := (List.eq_nil_or_concat' dir).resolve_left hnil
    have hrender : render dir ≠ [] := by
      rw [hdir, render_append]
      exact List.append_ne_nil_of_right_ne_nil _ (List.cons_ne_nil _ _)
    have hshow : s.curDir = render dir := hcur.trans (if_neg hrender)
    have hroot : s.curDir ≠ [SLASH] := by
      -- Only the root and the directory of one empty name are shown by a slash alone.
      rw [hshow, hdir, render_append]
      intro hone
      have hlen := congrArg List.length hone
      rw [List.length_append, List.length_cons, List.length_singleton] at hlen
      have hname : name = [] := List.length_eq_zero_iff.mp (by omega)
      have hinit : init = [] := by
        cases init with
        | nil => rfl
        | cons a init =>
            rw [render, List.flatMap_cons, List.length_append, List.length_cons] at hlen
            omega
      exact h.root (by rw [hdir, hinit, hname]; rfl)
    rw [if_pos hroot, hshow]
    rw [hshow] at hshort
    exact if_pos (by simpa using hshort)

theorem ShowsDir.render_lt (h : ShowsDir s dir) : (render dir).length < ASH_CMD_SIZE := by
  have hshort := h.short
  rw [h.curDir, showDir, rootIfEmpty] at hshort
  by_cases hnil : render dir = []
  · rw [hnil]
    decide
  · rw [if_neg hnil] at hshort
    exact hshort

/-- The shell at the start. -/
theorem showsDir_init : ShowsDir ⟨[SLASH], false, 0⟩ [] where
  curDir := rfl
  short := by decide
  names := by simp
  root := by simp

theorem showsDir_setDir (hcur : s.curDir = showDir dir) (hnames : ∀ name ∈ dir, SLASH ∉ name)
    (hshort : (render dir).length < ASH_CMD_SIZE) : ∃ dir', ShowsDir s dir' := by
  have hlt : s.curDir.length < ASH_CMD_SIZE := by
    rw [hcur, showDir, rootIfEmpty]
    split
    · decide
    · exact hshort
  by_cases hroot : dir = [[]]
  · refine ⟨[], ?_, hlt, by simp, by simp⟩
    rw [hcur, hroot]
    rfl
  · exact ⟨dir, hcur, hlt, hnames, hroot⟩

theorem showsDir_root (hcur : s.curDir = [SLASH]) : ∃ dir', ShowsDir s dir' := by
  have hshow : s.curDir = showDir [] := hcur
  exact showsDir_setDir hshow (by simp) (by decide)

/-- What the shell shows when the loop returns is a directory again. -/
theorem cdLoop_showsDir {dir' : List (List UInt8)} (h : ShowsDir s dir')
    (hnames : ∀ name ∈ dir, SLASH ∉ name) (hshort : (render dir).length < ASH_CMD_SIZE)
    (hrun : cdLoop opens fuel arg (render dir) s = some s') : ∃ dir'', ShowsDir s' dir'' := by
  induction fuel generalizing arg dir s with
  | zero => exact absurd hrun nofun
  | succ fuel ih =>
      by_cases hrest : SLASH ∈ dropSlash arg
      · obtain ⟨c, rest, harg, hc⟩ := List.eq_append_cons_of_mem hrest
        have hnames' := applyComponent_names hnames hc
        rw [cdLoop_inner hc harg, innerStep_render hnames hshort] at hrun
        by_cases hfits : (render (applyComponent dir c)).length < ASH_CMD_SIZE
        · rw [if_pos hfits, Option.bind_some] at hrun
          by_cases hopen : opens (render (applyComponent dir c)) = true
          · rw [if_pos hopen] at hrun
            exact ih h hnames' hfits hrun
          · rw [if_neg hopen] at hrun
            have hscratch : ShowsDir { s with scratch := s.scratch + 1 } dir' :=
              ⟨h.curDir, h.short, h.names, h.root⟩
            exact ih hscratch hnames' hfits hrun
        · rw [if_neg hfits, Option.bind_none] at hrun
          exact absurd hrun nofun
      · have hnames' := applyComponent_names hnames hrest
        rw [cdLoop_last hrest, lastStep_render hnames hshort] at hrun
        by_cases hfits : (render (applyComponent dir (dropSlash arg))).length < ASH_CMD_SIZE
        · rw [if_pos hfits, Option.map_some, Option.some.injEq] at hrun
          by_cases hopen : opens (showDir (applyComponent dir (dropSlash arg))) = true
          · rw [if_pos hopen] at hrun
            rw [← hrun]
            exact showsDir_setDir (CdShell.setDir_curDir _ s) hnames' hfits
          · rw [if_neg hopen] at hrun
            exact ⟨dir', hrun ▸ h⟩
        · rw [if_neg hfits, Option.map_none] at hrun
          exact absurd hrun nofun

/-- After every command that returns the shell shows a directory, also after one that leaves
blocks behind. -/
theorem ShowsDir.cdDir {argv : List (List UInt8)} (h : ShowsDir s dir)
    (hrun : ACoral.cdDir opens fuel argv s = some s') : ∃ dir', ShowsDir s' dir' := by
  unfold ACoral.cdDir at hrun
  split at hrun
  · simp only [h.startPath, Option.bind_some] at hrun
    exact cdLoop_showsDir h h.names h.render_lt hrun
  · rw [Option.some.injEq] at hrun
    rw [← hrun]
    exact (showsDir_root (CdShell.setDir_curDir _ s))
  · rw [Option.some.injEq] at hrun
    exact ⟨dir, hrun ▸ h⟩

end ACoral
