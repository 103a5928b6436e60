import ACoral.Proofs.ShellEditor
import Mathlib.Data.List.Destutter

/-!
# `ACoral.Proofs.ShellHistory`: the history of the shell

`shell_push_history` fills the rows first, and moves them up when they are all in use. In both
phases a line is left out when it is empty or is the last one already.

`recentTexts` is the history that the lines should give: the last `ASH_HISTORY_LINES` of them,
where the empty ones and the repetitions have been removed from the whole sequence. The ideal
editor pushes one text after the other; `pushText_recentTexts` says that this is the same. By
`Refines` the rows of the shell hold these texts, and the up key finds them one by one
(`Tracks.ups`).
-/

set_option autoImplicit false

namespace ACoral

open Lib InputStat

/-! ### Repetitions -/

section Destutter

variable {A : Type} [DecidableEq A]

/-- An element at the end is kept unless it repeats the last one. -/
theorem destutter'_concat (a : A) (l : List A) (x : A) :
    (l ++ [x]).destutter' (· ≠ ·) a =
      if (l.destutter' (· ≠ ·) a).getLast? = some x then l.destutter' (· ≠ ·) a
      else l.destutter' (· ≠ ·) a ++ [x] := by
  induction l generalizing a with
  | nil =>
      rw [List.nil_append, List.destutter'_singleton, List.destutter'_nil,
        List.getLast?_singleton]
      by_cases hx : a = x
      · rw [if_neg (not_not.mpr hx), if_pos (congrArg some hx)]
      · rw [if_pos hx, if_neg (fun h => hx (Option.some.inj h))]
        rfl
  | cons b l ih =>
      rw [List.cons_append]
      by_cases hb : a = b
      · rw [List.destutter'_cons_neg _ (not_not.mpr hb), ih,
          List.destutter'_cons_neg _ (not_not.mpr hb)]
      · rw [List.destutter'_cons_pos _ hb, ih, List.destutter'_cons_pos _ hb,
          List.getLast?_cons_of_ne_nil (List.destutter'_ne_nil l _), List.cons_append]
        exact apply_ite (a :: ·) _ _ _

theorem destutter_concat (l : List A) (x : A) :
    (l ++ [x]).destutter (· ≠ ·) =
      if (l.destutter (· ≠ ·)).getLast? = some x then l.destutter (· ≠ ·)
      else l.destutter (· ≠ ·) ++ [x] := by
  cases l with
  | nil      => rfl
  | cons a l => exact destutter'_concat a l x

end Destutter

section LastOf

variable {A : Type} {n : Nat}

theorem length_lastOf (n : Nat) (l : List A) : (lastOf n l).length = min n l.length := by
  rw [lastOf, List.length_drop]
  omega

theorem getLast?_lastOf (hn : 0 < n) (l : List A) : (lastOf n l).getLast? = l.getLast? := by
  rw [lastOf, List.getLast?_drop]
  by_cases hnil : l = []
  · rw [hnil, List.getLast?_nil, ite_self]
  · have hpos := List.length_pos_of_ne_nil hnil
    exact if_neg (by omega)

/-- What is not among the last ones does not come back. -/
theorem lastOf_lastOf_concat (n : Nat) (l : List A) (x : A) :
    lastOf n (lastOf n l ++ [x]) = lastOf n (l ++ [x]) := by
  have hcut : lastOf n l ++ [x] = (l ++ [x]).drop (l.length - n) :=
    (List.drop_append_of_le_length (Nat.sub_le _ _)).symm
  rw [hcut, lastOf, lastOf, List.drop_drop, List.length_drop, List.length_append,
    List.length_singleton]
  congr 1
  omega

end LastOf

/-- The history after the texts have been entered. -/
def recentTexts (entered : List (List UInt8)) : List (List UInt8) :=
  lastOf ASH_HISTORY_LINES ((entered.filter (· ≠ [])).destutter (· ≠ ·))

/-- A text is pushed after the others. -/
theorem pushText_recentTexts (entered : List (List UInt8)) (text : List UInt8) :
    pushText (recentTexts entered) text = recentTexts (entered ++ [text]) := by
  unfold pushText recentTexts
  rw [getLast?_lastOf (by decide), List.filter_append]
  by_cases hempty : text = []
  · have hnone : [text].filter (· ≠ []) = [] := by rw [hempty]; rfl
    rw [if_pos (Or.inl hempty), hnone, List.append_nil]
  · have hone : [text].filter (· ≠ []) = [text] := by simp [hempty]
    rw [hone, destutter_concat]
    by_cases hrep : ((entered.filter (· ≠ [])).destutter (· ≠ ·)).getLast? = some text
    · rw [if_pos (Or.inr hrep), if_pos hrep]
    · rw [if_neg (not_or.mpr ⟨hempty, hrep⟩), if_neg hrep, lastOf_lastOf_concat]

/-! ### The rows -/

variable {r : AshRun} {e : Editor} {ch : InputByte}

/-- The texts in the rows of the history. -/
def historyTexts (s : AshShell) : List (Option (List UInt8)) :=
  (List.range s.historyCount).map fun i => stringOf (s.cmdHistory i)

theorem Refines.historyTexts_eq {s : AshShell} (h : Refines s e) :
    historyTexts s = e.history.map some := by
  unfold historyTexts
  rw [h.count]
  refine List.ext_getElem (by simp) ?_
  intro i hi hi'
  rw [List.length_map] at hi'
  rw [List.getElem_map, List.getElem_map, List.getElem_range]
  exact (h.history.rows i _ (List.getElem?_eq_getElem hi')).stringOf_eq
    (h.history.texts _ (List.getElem_mem hi'))

/-- Every character keeps the history that of the texts that have been entered. -/
theorem editorStep_recentTexts {e' : Editor} (h : e.history = recentTexts e.entered)
    (hstep : editorStep e ch = some e') : e'.history = recentTexts e'.entered := by
  unfold editorStep at hstep
  rw [Option.some.injEq] at hstep
  rw [← hstep]
  generalize (keyAction e.stat ch.val).2 = act
  by_cases henter : act = .enter
  · rw [henter]
    show pushText e.history e.text = recentTexts (e.entered ++ [e.text])
    rw [h, pushText_recentTexts]
  · have hlog := log_act { e with stat := (keyAction e.stat ch.val).1 } henter
    have hhistory := congrArg Prod.fst hlog
    have hentered := congrArg Prod.snd hlog
    exact hhistory.trans (h.trans (congrArg recentTexts hentered.symm))

/-! ### The up key -/

/-- The bytes of the up key. -/
def upBytes : List InputByte := [⟨0x1b, by decide⟩, ⟨0x5b, by decide⟩, ⟨0x41, by decide⟩]

/-- The up key `k` times. -/
def upKeys (k : Nat) : List InputByte := (List.replicate k upBytes).flatten

/-- In any state the three bytes are one action. -/
theorem Tracks.up (h : Tracks r e) :
    ∃ r', run ashRunStep r upBytes = some r' ∧
      Tracks r' ({ e with stat := WAIT_NORMAL }.act .up) := by
  obtain ⟨r₁, e₁, hr₁, he₁, h₁⟩ := h.step ⟨0x1b, by decide⟩ rfl
  obtain rfl := Option.some.inj he₁
  have hbracket : roomGuard r₁ ⟨0x5b, by decide⟩ = true := by
    rw [roomGuard, h₁.shell.stat]
    rfl
  obtain ⟨r₂, e₂, hr₂, he₂, h₂⟩ := h₁.step ⟨0x5b, by decide⟩ hbracket
  obtain rfl := Option.some.inj he₂
  have hletter : roomGuard r₂ ⟨0x41, by decide⟩ = true := by
    rw [roomGuard, h₂.shell.stat]
    rfl
  obtain ⟨r₃, e₃, hr₃, he₃, h₃⟩ := h₂.step ⟨0x41, by decide⟩ hletter
  obtain rfl := Option.some.inj he₃
  refine ⟨r₃, ?_, h₃⟩
  rw [upBytes, run_cons, hr₁, Option.bind_some, run_cons, hr₂, Option.bind_some, run_cons, hr₃]
  rfl

/-- The text before the last one that has been recalled. -/
theorem act_up {text : List UInt8} (hpos : 0 < e.recalled)
    (hget : e.history[e.recalled - 1]? = some text) :
    e.act .up = { e with recalled := e.recalled - 1, text := text, cursor := text.length } := by
  rw [Editor.act, if_pos hpos, Editor.recallText, hget]

/-- The up key goes back text by text. -/
theorem Tracks.ups (h : Tracks r e) {k : Nat} (hk : k ≤ e.recalled) :
    ∃ r' e', run ashRunStep r (upKeys k) = some r' ∧ Tracks r' e' ∧ e'.recalled = e.recalled - k ∧
      e'.history = e.history ∧ (1 ≤ k → e.history[e.recalled - k]? = some e'.text) := by
  induction k with
  | zero => exact ⟨r, e, rfl, h, rfl, rfl, nofun⟩
  | succ k ih =>
      obtain ⟨r', e', hr', h', hrecall, hhistory, -⟩ := ih (by omega)
      have hle := h.shell.recall_le
      obtain ⟨text, hget⟩ : ∃ text, e.history[e.recalled - (k + 1)]? = some text :=
        ⟨_, List.getElem?_eq_getElem (by omega)⟩
      have hprev : e'.recalled - 1 = e.recalled - (k + 1) := by omega
      obtain ⟨r'', hr'', h''⟩ := h'.up
      rw [← hhistory, ← hprev] at hget
      rw [act_up (e := { e' with stat := WAIT_NORMAL }) (show 0 < e'.recalled by omega) hget] at h''
      rw [hhistory, hprev] at hget
      refine ⟨r'', _, ?_, h'', hprev, hhistory, fun _ => hget⟩
      rw [upKeys, List.replicate_succ', List.flatten_append, List.flatten_singleton]
      exact run_append.mpr ⟨r', hr', hr''⟩

/-- The rows hold the most recent texts, and pressing the up key `k` times recalls the one
that is the `k`-th from the end. -/
structure RecallsHistory (r : AshRun) : Prop where
  texts : historyTexts r.shell = (recentTexts r.entered).map some
  ups : ∀ k, 1 ≤ k → k ≤ r.shell.historyCount → ∃ r', run ashRunStep r (upKeys k) = some r' ∧
    stringOf r'.shell.line = (recentTexts r.entered).reverse[k - 1]?

theorem Tracks.recallsHistory (h : Tracks r e) (hhistory : e.history = recentTexts e.entered)
    (hrecall : e.recalled = e.history.length) : RecallsHistory r where
  texts := by rw [h.shell.historyTexts_eq, hhistory, h.entered]
  ups := by
    intro k hpos hk
    rw [h.shell.count, ← hrecall] at hk
    obtain ⟨r', e', hr', h', -, -, hget⟩ := h.ups hk
    have hindex : e.history.length - 1 - (k - 1) = e.recalled - k := by omega
    refine ⟨r', hr', ?_⟩
    rw [h'.shell.line.stringOf_eq h'.shell.text, h.entered, ← hhistory,
      List.getElem?_reverse (by omega), hindex, hget hpos]

/-! ### Lines -/

/-- The Enter key. -/
def IsEnter (ch : InputByte) : Prop := ch.val = 0x0d ∨ ch.val = 0x0a

/-- In any state it enters the text. -/
theorem keyAction_enter (hch : IsEnter ch) (stat : InputStat) :
    keyAction stat ch.val = (WAIT_NORMAL, .enter) := by
  rcases hch with hch | hch <;> rw [hch] <;> cases stat <;> rfl

theorem Tracks.enter (h : Tracks r e) (hch : IsEnter ch) :
    ∃ r', guarded roomGuard ashRunStep r ch = some r' ∧
      Tracks r' ({ e with stat := WAIT_NORMAL }.act .enter) := by
  have hguard : roomGuard r ch = true := by rw [roomGuard, keyAction_enter hch]
  obtain ⟨r', e', hr', he', h'⟩ := h.step ch hguard
  rw [editorStep, keyAction_enter hch, Option.some.injEq] at he'
  exact ⟨r', guarded_eq_some.mpr ⟨hguard, hr'⟩, he' ▸ h'⟩

/-- A line of ordinary characters that is shorter than the line buffer. -/
structure IsLine (line : List InputByte) : Prop where
  short : line.length < ASH_CMD_SIZE
  plain : ∀ ch ∈ line, ch.val ≠ 0x1b ∧ plainAction ch.val = .insert ch.val

theorem keyAction_normal {c : UInt8} (hesc : c ≠ 0x1b) :
    keyAction WAIT_NORMAL c = (WAIT_NORMAL, plainAction c) := if_neg hesc

/-- A character at the end of the text. -/
theorem act_insert_end {c : UInt8} (hcursor : e.cursor = e.text.length)
    (hroom : e.text.length + 1 < ASH_CMD_SIZE) :
    e.act (.insert c) = { e with text := e.text ++ [c], cursor := e.text.length + 1 } := by
  rw [Editor.act, if_pos hroom, hcursor, List.insertIdx_length_self]

/-- The characters go to the end of the text. -/
theorem Tracks.type (h : Tracks r e) (hstat : e.stat = WAIT_NORMAL)
    (hcursor : e.cursor = e.text.length) {line : List InputByte}
    (hplain : ∀ ch ∈ line, ch.val ≠ 0x1b ∧ plainAction ch.val = .insert ch.val)
    (hroom : e.text.length + line.length < ASH_CMD_SIZE) :
    ∃ r', run (guarded roomGuard ashRunStep) r line = some r' ∧
      Tracks r' { e with
        text := e.text ++ line.map Subtype.val
        cursor := e.text.length + line.length } := by
  induction line generalizing r e with
  | nil =>
      refine ⟨r, rfl, ?_⟩
      rw [List.map_nil, List.append_nil, List.length_nil, Nat.add_zero, ← hcursor]
      exact h
  | cons ch line ih =>
      obtain ⟨hesc, hinsert⟩ := hplain ch List.mem_cons_self
      rw [List.length_cons] at hroom
      have haction : keyAction e.stat ch.val = (e.stat, .insert ch.val) := by
        rw [hstat, keyAction_normal hesc, hinsert]
      have hguard : roomGuard r ch = true := by
        rw [roomGuard, h.shell.stat, haction, h.shell.position]
        exact decide_eq_true (by omega)
      obtain ⟨r', e', hr', he', h'⟩ := h.step ch hguard
      rw [editorStep, haction, Option.some.injEq, act_insert_end hcursor (by omega)] at he'
      rw [← he'] at h'
      have hlen : (e.text ++ [ch.val]).length = e.text.length + 1 := List.length_append
      obtain ⟨r'', hr'', h''⟩ := ih h' hstat hlen.symm
        (fun c hc => hplain c (List.mem_cons_of_mem ch hc)) (by rw [hlen]; omega)
      refine ⟨r'', run_cons_eq_some.mpr ⟨r', guarded_eq_some.mpr ⟨hguard, hr'⟩, hr''⟩, ?_⟩
      rw [hlen, List.append_assoc, Nat.add_assoc, Nat.add_comm 1] at h''
      exact h''

/-- The characters of the lines, with an Enter behind each. -/
def typed (lines : List (List InputByte)) : List InputByte :=
  lines.flatMap fun line => line ++ [⟨0x0d, by decide⟩]

/-- The shell waits for a line. -/
structure Waits (r : AshRun) (e : Editor) : Prop where
  tracks : Tracks r e
  stat : e.stat = WAIT_NORMAL
  text : e.text = []
  cursor : e.cursor = 0
  recalled : e.recalled = e.history.length
  history : e.history = recentTexts e.entered

theorem Waits.init : Waits ashRunInit editorInit where
  tracks := ⟨Refines.init, rfl⟩
  stat := rfl
  text := rfl
  cursor := rfl
  recalled := rfl
  history := rfl

/-- One line. -/
theorem Waits.line (h : Waits r e) {line : List InputByte} (hline : IsLine line) :
    ∃ r' e', run (guarded roomGuard ashRunStep) r (line ++ [⟨0x0d, by decide⟩]) = some r' ∧
      Waits r' e' ∧ e'.entered = e.entered ++ [line.map Subtype.val] := by
  have hlen : e.text.length = 0 := by rw [h.text, List.length_nil]
  have hshort := hline.short
  obtain ⟨r', hr', h'⟩ := h.tracks.type h.stat (h.cursor.trans hlen.symm) hline.plain (by omega)
  have henter : IsEnter ⟨0x0d, by decide⟩ := Or.inl rfl
  obtain ⟨r'', hr'', h''⟩ := h'.enter henter
  rw [h.text, List.nil_append] at h''
  have hhistory : pushText e.history (line.map Subtype.val) =
      recentTexts (e.entered ++ [line.map Subtype.val]) := by
    rw [h.history, pushText_recentTexts]
  have hwaits : Waits r'' _ := ⟨h'', rfl, rfl, rfl, rfl, hhistory⟩
  exact ⟨r'', _, run_append.mpr ⟨r', hr', run_cons_eq_some.mpr ⟨r'', hr'', rfl⟩⟩, hwaits, rfl⟩

/-- Line after line. -/
theorem Waits.lines (h : Waits r e) {lines : List (List InputByte)}
    (hlines : ∀ line ∈ lines, IsLine line) :
    ∃ r' e', run (guarded roomGuard ashRunStep) r (typed lines) = some r' ∧
      Waits r' e' ∧ e'.entered = e.entered ++ lines.map (List.map Subtype.val) := by
  induction lines generalizing r e with
  | nil => exact ⟨r, e, rfl, h, (List.append_nil _).symm⟩
  | cons line lines ih =>
      obtain ⟨r', e', hr', h', hentered⟩ := h.line (hlines line List.mem_cons_self)
      obtain ⟨r'', e'', hr'', h'', hentered'⟩ :=
        ih h' (fun l hl => hlines l (List.mem_cons_of_mem line hl))
      refine ⟨r'', e'', run_append.mpr ⟨r', hr', hr''⟩, h'', ?_⟩
      rw [hentered', hentered, List.append_assoc]
      rfl

/-- Lines that are typed one after the other leave the history that they should, and the up
key recalls them. It is the same for lines that come about in any other way, with the cursor
and the history: the rows hold the recent texts all the time, and after each Enter the up key
recalls them. -/
theorem shell_history :
    (∀ lines : List (List InputByte), (∀ line ∈ lines, IsLine line) →
      ∃ r, run (guarded roomGuard ashRunStep) ashRunInit (typed lines) = some r ∧
        r.entered = lines.map (List.map Subtype.val) ∧ RecallsHistory r) ∧
    ∀ bytes r, run (guarded roomGuard ashRunStep) ashRunInit bytes = some r →
      historyTexts r.shell = (recentTexts r.entered).map some ∧
      ∀ ch, IsEnter ch → ∃ r', ashRunStep r ch = some r' ∧ RecallsHistory r' := by
  constructor
  · intro lines hlines
    obtain ⟨r, e, hr, h, hentered⟩ := Waits.init.lines hlines
    exact ⟨r, hr, h.tracks.entered.trans hentered, h.tracks.recallsHistory h.history h.recalled⟩
  · intro bytes r hrun
    obtain ⟨e, he, h⟩ := tracks_run hrun
    have hhistory : e.history = recentTexts e.entered :=
      run_induct (fun _ _ _ => editorStep_recentTexts) (show editorInit.history = _ from rfl) he
    refine ⟨?_, fun ch hch => ?_⟩
    · rw [h.shell.historyTexts_eq, hhistory, h.entered]
    · obtain ⟨r', hr', h'⟩ := h.enter hch
      refine ⟨r', (guarded_eq_some.mp hr').2, h'.recallsHistory ?_ rfl⟩
      show pushText e.history e.text = recentTexts (e.entered ++ [e.text])
      rw [hhistory, pushText_recentTexts]

/-- The lines `a`, `a`, an empty one and `b`. -/
theorem shell_history_four :
    ∃ r, run (guarded roomGuard ashRunStep) ashRunInit (typed [[⟨0x61, by decide⟩],
        [⟨0x61, by decide⟩], [], [⟨0x62, by decide⟩]]) = some r ∧
      historyTexts r.shell = [some [0x61], some [0x62]] ∧
      ∃ r', run ashRunStep r (upKeys 2) = some r' ∧ stringOf r'.shell.line = some [0x61] := by
  obtain ⟨r, hr, hentered, htexts, hups⟩ := shell_history.1 [[⟨0x61, by decide⟩],
    [⟨0x61, by decide⟩], [], [⟨0x62, by decide⟩]] (by
      intro line hline
      simp only [List.mem_cons, List.not_mem_nil, or_false] at hline
      rcases hline with rfl | rfl | rfl | rfl <;> exact ⟨by decide, by simp [plainAction]⟩)
  have hrecent : recentTexts r.entered = [[0x61], [0x62]] := by
    rw [hentered]
    decide
  rw [hrecent] at htexts hups
  have hcount : r.shell.historyCount = 2 := by
    have hlen := congrArg List.length htexts
    rw [historyTexts, List.length_map, List.length_range] at hlen
    exact hlen
  obtain ⟨r', hr', htext⟩ := hups 2 (by decide) (Nat.le_of_eq hcount.symm)
  exact ⟨r, hr, htexts, r', hr', htext⟩

end ACoral
