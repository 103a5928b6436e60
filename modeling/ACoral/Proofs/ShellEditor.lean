import ACoral.Kernel.Shell
import ACoral.Lib.GuardedRun

/-!
# `ACoral.Proofs.ShellEditor`: the shell against an ideal editor

The line of the shell takes `ASH_CMD_SIZE` bytes, and a text in it needs one more for its 0.
`insertKey` lets the last byte be typed, too. From then on the line is no string any more; in
the middle of the line the 0 goes behind its end. The next character makes the shell begin
anew, with the old text still in the line.

As long as no character is typed into the last byte (`roomGuard`), the shell does what the
ideal editor does. `Refines` relates the two: the line holds the text and zeros behind it,
and the rows of the history hold the texts of the history. There is a lemma for each key, and
`refines_step` puts them together. `shell_refines` is the result about runs.
-/

set_option autoImplicit false

namespace ACoral

open Lib InputStat

variable {s : AshShell} {e : Editor} {a : Nat → UInt8} {text : List UInt8} {ch : UInt8} {i : Nat}

/-! ### Texts in arrays -/

/-- A text that fits into a line with its 0. -/
structure IsText (text : List UInt8) : Prop where
  short : text.length < ASH_CMD_SIZE
  nonzero : 0 ∉ text

/-- The array holds the text, and zeros behind it. -/
def HoldsText (a : Nat → UInt8) (text : List UInt8) : Prop := Holds ASH_CMD_SIZE 0 a text

namespace HoldsText

/-- The first 0 is behind the text. -/
theorem strlen_eq (h : HoldsText a text) (ht : IsText text) : strlen a = some text.length := by
  have hend : a text.length = 0 := h.fill_of_le ht.short (Nat.le_refl _)
  unfold strlen
  rw [List.find?_range_eq_some]
  refine ⟨decide_eq_true hend, List.mem_range.mpr ht.short, ?_⟩
  intro j hj
  have hne : a j ≠ 0 := by
    rw [h.get (Nat.le_of_lt ht.short) hj]
    intro hzero
    exact ht.nonzero (hzero ▸ List.getElem_mem hj)
  simpa using hne

theorem stringOf_eq (h : HoldsText a text) (ht : IsText text) : stringOf a = some text := by
  unfold stringOf
  rw [h.strlen_eq ht, Option.map_some]
  congr 1
  refine List.ext_getElem (by simp) ?_
  intro j hj hj'
  rw [List.getElem_map, List.getElem_range]
  exact h.get (Nat.le_of_lt ht.short) hj'

/-- A character goes. -/
theorem erase (h : HoldsText a text) (ht : IsText text) {c : Nat} (hc : c < text.length) :
    ∃ line,
      (if text.length - 1 > c then
          (moveLine c (c + 1) (text.length - 1 - c) a).bind (writeLine (text.length - 1) 0)
        else writeLine (text.length - 1) 0 a) = some line ∧
      HoldsText line (text.eraseIdx c) := by
  have hshort := ht.short
  refine ⟨_, ?_, Holds.erase h hc (Nat.le_of_lt hshort)⟩
  by_cases htail : text.length - 1 > c
  · rw [if_pos htail, moveLine, if_pos (by omega), Option.bind_some, writeLine, if_pos (by omega),
      acoralMemmove_eq]
  · have hnone : text.length - 1 - c = 0 := by omega
    rw [if_neg htail, writeLine, if_pos (by omega), hnone, moved_zero]

/-- A character goes into the line. -/
theorem insert (h : HoldsText a text) (hroom : text.length + 1 < ASH_CMD_SIZE) {c : Nat}
    (hc : c ≤ text.length) (ch : UInt8) :
    ∃ line,
      (if c < text.length then
          ((moveLine (c + 1) c (text.length - c) a).bind (writeLine c ch)).bind
            (writeLine (text.length + 1) 0)
        else writeLine c ch a) = some line ∧
      HoldsText line (text.insertIdx c ch) := by
  have hinsert : HoldsText _ (text.insertIdx c ch) := Holds.insert h hc ch
  refine ⟨_, ?_, hinsert⟩
  by_cases htail : c < text.length
  · -- The 0 is there already.
    have hlen : (text.insertIdx c ch).length ≤ text.length + 1 :=
      Nat.le_of_eq (List.length_insertIdx_of_le_length hc _)
    have hend := hinsert.fill_of_le hroom hlen
    rw [if_pos htail, moveLine, if_pos (by omega), Option.bind_some, writeLine, if_pos (by omega),
      Option.bind_some, writeLine, if_pos hroom, acoralMemmove_eq, ← hend, Function.update_eq_self]
  · have hnone : text.length - c = 0 := by omega
    rw [if_neg htail, writeLine, if_pos (by omega), hnone, moved_zero]

end HoldsText

namespace IsText

theorem nil : IsText [] := ⟨by decide, List.not_mem_nil⟩

theorem eraseIdx (ht : IsText text) (c : Nat) : IsText (text.eraseIdx c) where
  short := Nat.lt_of_le_of_lt (List.length_eraseIdx_le _ _) ht.short
  nonzero := fun hmem => ht.nonzero (List.mem_of_mem_eraseIdx hmem)

theorem insertIdx (ht : IsText text) (hroom : text.length + 1 < ASH_CMD_SIZE) {c : Nat}
    (hc : c ≤ text.length) (hch : ch ≠ 0) : IsText (text.insertIdx c ch) where
  short := by
    rw [List.length_insertIdx_of_le_length hc]
    exact hroom
  nonzero := by
    rw [List.mem_insertIdx hc]
    rintro (hzero | hmem)
    · exact hch hzero.symm
    · exact ht.nonzero hmem

end IsText

/-- A copy of a whole row. -/
theorem holdsText_memcpy {src : Nat → UInt8} (h : HoldsText src text) :
    HoldsText (acoralMemcpy src ASH_CMD_SIZE 0 a) text := by
  intro j hj
  rw [acoralMemcpy_eq]
  exact (if_pos ⟨Nat.zero_le j, by omega⟩).trans (h j hj)

/-- A row that has been cleared. -/
theorem holdsText_memset : HoldsText (acoralMemset 0 ASH_CMD_SIZE 0 a) [] := by
  rw [acoralMemset_eq]
  have hnil : Holds ASH_CMD_SIZE 0 (fun _ => (0 : UInt8)) [] := Holds.nil
  exact holdsText_memcpy hnil

/-- A copy of the text into a row that has been cleared. -/
theorem holdsText_store {line : Nat → UInt8} (h : HoldsText line text) :
    HoldsText (acoralMemcpy line text.length 0 (acoralMemset 0 ASH_CMD_SIZE 0 a)) text := by
  intro j hj
  rw [acoralMemcpy_eq]
  by_cases hin : j < text.length
  · exact (if_pos ⟨Nat.zero_le j, by omega⟩).trans (h j hj)
  · show (if 0 ≤ j ∧ j < 0 + text.length then line j else acoralMemset 0 ASH_CMD_SIZE 0 a j) = _
    rw [if_neg (by omega), List.getElem?_eq_none (by omega)]
    exact holdsText_memset j hj

/-- Two texts are the same exactly when their arrays compare as equal. -/
theorem memcmp_eq_zero_iff {b : Nat → UInt8} {text' : List UInt8} (h : HoldsText a text)
    (h' : HoldsText b text') (ht : IsText text) (ht' : IsText text') :
    acoralMemcmp a b ASH_CMD_SIZE 0 = 0 ↔ text = text' := by
  rw [acoralMemcmp_eq_zero_iff]
  constructor
  · intro heq
    have hb : HoldsText a text' := by
      intro j hj
      rw [heq j (Nat.zero_le j) (by omega)]
      exact h' j hj
    exact Holds.unique h hb (Nat.le_of_lt ht.short) (Nat.le_of_lt ht'.short) ht.nonzero ht'.nonzero
  · rintro rfl j - hj
    rw [h j (by omega), h' j (by omega)]

/-! ### The relation -/

/-- The rows of the shell's history hold the texts of the ideal one. -/
structure HoldsHistory (rows : Nat → Nat → UInt8) (history : List (List UInt8)) : Prop where
  few : history.length ≤ ASH_HISTORY_LINES
  rows : ∀ i text, history[i]? = some text → HoldsText (rows i) text
  texts : ∀ text ∈ history, IsText text

namespace HoldsHistory

variable {rows : Nat → Nat → UInt8} {history : List (List UInt8)}

/-- The line is compared with the row of the last text. -/
theorem memcmp_last_iff {line : Nat → UInt8} (h : HoldsHistory rows history) (hne : history ≠ [])
    (hline : HoldsText line text) (ht : IsText text) :
    acoralMemcmp (rows (history.length - 1)) line ASH_CMD_SIZE 0 = 0 ↔
      history.getLast? = some text := by
  have hlast := List.getLast?_eq_some_getLast hne
  have hrow := h.rows _ _ (List.getLast?_eq_getElem? ▸ hlast)
  rw [memcmp_eq_zero_iff hrow hline (h.texts _ (List.getLast_mem hne)) ht, hlast,
    Option.some.injEq]

/-- While there is room, the next row gets the text. -/
theorem append {row : Nat → UInt8} (h : HoldsHistory rows history)
    (hroom : history.length < ASH_HISTORY_LINES) (hrow : HoldsText row text) (ht : IsText text) :
    HoldsHistory (Function.update rows history.length row) (history ++ [text]) where
  few := by
    rw [List.length_append]
    exact hroom
  rows := by
    intro i t hget
    by_cases hlast : i = history.length
    · rw [hlast, List.getElem?_concat_length, Option.some.injEq] at hget
      rw [hlast, Function.update_self, ← hget]
      exact hrow
    · have hlt : i < history.length := by
        have hlen := (List.getElem?_eq_some_iff.mp hget).1
        rw [List.length_append, List.length_singleton] at hlen
        omega
      rw [List.getElem?_append_left hlt] at hget
      rw [Function.update_of_ne hlast]
      exact h.rows i t hget
  texts := by
    intro t hmem
    rcases List.mem_append.mp hmem with hold | hnew
    · exact h.texts t hold
    · rw [List.mem_singleton.mp hnew]
      exact ht

end HoldsHistory

/-- Each row gets the next one. -/
theorem shiftHistory_apply (count index : Nat) (rows : Nat → Nat → UInt8) (j : Nat) :
    shiftHistory count index rows j =
      if index ≤ j ∧ j < index + count then acoralMemcpy (rows (j + 1)) ASH_CMD_SIZE 0 (rows j)
      else rows j := by
  induction count generalizing index rows with
  | zero => exact (if_neg (by omega)).symm
  | succ count ih =>
      rw [shiftHistory, ih]
      by_cases hfirst : j = index
      · rw [hfirst, if_neg (by omega), if_pos (by omega), Function.update_self]
      · by_cases hin : index + 1 ≤ j ∧ j < index + 1 + count
        · rw [if_pos hin, if_pos (by omega), Function.update_of_ne hfirst,
            Function.update_of_ne (by omega)]
        · rw [if_neg hin, if_neg (by omega), Function.update_of_ne hfirst]

/-- The history without its first text. -/
theorem HoldsHistory.shift {rows : Nat → Nat → UInt8} {history : List (List UInt8)}
    (h : HoldsHistory rows history) {count : Nat} (hcount : history.length = count + 1) :
    HoldsHistory (shiftHistory count 0 rows) (history.drop 1) where
  few := by
    have hfew := h.few
    rw [List.length_drop]
    omega
  rows := by
    intro i t hget
    have hlen := (List.getElem?_eq_some_iff.mp hget).1
    rw [List.length_drop] at hlen
    rw [List.getElem?_drop, Nat.add_comm] at hget
    rw [shiftHistory_apply, if_pos (by omega)]
    exact holdsText_memcpy (h.rows (i + 1) t hget)
  texts := fun t hmem => h.texts t (List.mem_of_mem_drop hmem)

section LastOf

variable {A : Type} {n : Nat} {l : List A}

/-- A list that is short enough stays whole. -/
theorem lastOf_eq_self (h : l.length ≤ n) : lastOf n l = l := by
  rw [lastOf, Nat.sub_eq_zero_of_le h]
  exact List.drop_zero

/-- The first element goes. -/
theorem lastOf_append_singleton (h : l.length = n + 1) (x : A) :
    lastOf (n + 1) (l ++ [x]) = l.drop 1 ++ [x] := by
  have hlen : (l ++ [x]).length - (n + 1) = 1 := by
    rw [List.length_append, List.length_singleton]
    omega
  rw [lastOf, hlen, List.drop_append_of_le_length (by omega)]

end LastOf

/-- The shell has the text, the cursor and the history of the ideal editor. -/
structure Refines (s : AshShell) (e : Editor) : Prop where
  stat : s.stat = e.stat
  line : HoldsText s.line e.text
  text : IsText e.text
  position : s.linePosition = e.text.length
  curpos : s.lineCurpos = e.cursor
  cursor_le : e.cursor ≤ e.text.length
  history : HoldsHistory s.cmdHistory e.history
  count : s.historyCount = e.history.length
  recalled : s.currentHistory = e.recalled
  recall_le : e.recalled ≤ e.history.length

namespace Refines

theorem init : Refines ashShellInit editorInit where
  stat := rfl
  line := Holds.nil
  text := IsText.nil
  position := rfl
  curpos := rfl
  cursor_le := Nat.le_refl _
  history := ⟨Nat.zero_le _, by simp [editorInit], by simp [editorInit]⟩
  count := rfl
  recalled := rfl
  recall_le := Nat.le_refl _

theorem withStat (h : Refines s e) (stat : InputStat) :
    Refines { s with stat := stat } { e with stat := stat } :=
  { h with stat := rfl }

/-- A text of the history goes to the line. -/
theorem recallText (h : Refines s e) (hi : i < e.history.length) :
    ∃ s', recallHistory i s = some s' ∧ Refines s' (e.recallText i) := by
  have hget := List.getElem?_eq_getElem hi
  have ht := h.history.texts _ (List.getElem_mem hi)
  have hline := holdsText_memcpy (a := s.line) (h.history.rows i _ hget)
  refine ⟨_, by rw [recallHistory, hline.strlen_eq ht, Option.map_some], ?_⟩
  rw [Editor.recallText, hget]
  exact
    { h with
      line := hline
      text := ht
      position := rfl
      curpos := rfl
      cursor_le := Nat.le_refl _
      recalled := rfl
      recall_le := Nat.le_of_lt hi }

theorem up (h : Refines s e) : ∃ s', upKey s = some s' ∧ Refines s' (e.act .up) := by
  have hrecall := h.recalled
  have hle := h.recall_le
  unfold upKey
  rw [Editor.act, hrecall]
  by_cases hpos : e.recalled > 0
  · rw [if_pos hpos, if_pos hpos]
    exact h.recallText (by omega)
  · rw [if_neg hpos, if_neg hpos]
    exact ⟨_, rfl, { h with recalled := show 0 = e.recalled by omega }⟩

theorem down (h : Refines s e) : ∃ s', downKey s = some s' ∧ Refines s' (e.act .down) := by
  unfold downKey
  rw [Editor.act, h.recalled, h.count]
  by_cases hlt : e.recalled + 1 < e.history.length
  · rw [if_pos (by omega), if_pos hlt]
    exact h.recallText hlt
  · rw [if_neg (by omega), if_neg hlt]
    by_cases hzero : e.history.length = 0
    · rw [if_neg (not_not.mpr hzero), Editor.recallText,
        List.getElem?_eq_none (show e.history.length ≤ e.history.length - 1 by omega)]
      exact ⟨s, rfl, h⟩
    · rw [if_pos hzero]
      exact h.recallText (by omega)

theorem left (h : Refines s e) : Refines (leftKey s) (e.act .left) := by
  have hcursor := h.cursor_le
  unfold leftKey
  rw [Editor.act, h.curpos]
  by_cases hzero : e.cursor = 0
  · rw [if_neg (not_not.mpr hzero), hzero, Nat.zero_sub, ← hzero]
    exact h
  · rw [if_pos hzero]
    exact { h with curpos := rfl, cursor_le := Nat.le_trans (Nat.sub_le _ _) hcursor }

theorem right (h : Refines s e) : Refines (rightKey s) (e.act .right) := by
  have hcursor := h.cursor_le
  have hguard : s.lineCurpos < s.linePosition ↔ e.cursor < e.text.length := by
    rw [h.curpos, h.position]
  unfold rightKey
  rw [Editor.act]
  by_cases hlt : e.cursor < e.text.length
  · rw [if_pos (hguard.mpr hlt), Nat.min_eq_left hlt, h.curpos]
    exact { h with curpos := rfl, cursor_le := hlt }
  · have hend : e.cursor = e.text.length := by omega
    rw [if_neg (mt hguard.mp hlt), Nat.min_eq_right (by omega)]
    exact { h with curpos := h.curpos.trans hend, cursor_le := Nat.le_refl _ }

theorem backspace (h : Refines s e) :
    ∃ s', backspaceKey s = some s' ∧ Refines s' (e.act .backspace) := by
  have hcursor := h.cursor_le
  unfold backspaceKey
  rw [Editor.act, h.curpos, h.position]
  by_cases hzero : e.cursor = 0
  · rw [if_neg (not_not.mpr hzero), if_pos hzero]
    exact ⟨s, rfl, h⟩
  · rw [if_pos hzero, if_neg hzero]
    have hlt : e.cursor - 1 < e.text.length := by omega
    obtain ⟨line, hline, hholds⟩ := h.line.erase h.text hlt
    have hlen := List.length_eraseIdx_of_lt hlt
    refine ⟨_, congrArg (Option.map _) hline, ?_⟩
    exact
      { h with
        line := hholds
        text := h.text.eraseIdx _
        position := hlen.symm
        curpos := rfl
        cursor_le := show e.cursor - 1 ≤ (e.text.eraseIdx (e.cursor - 1)).length by omega }

theorem insert (h : Refines s e) (hch : ch ≠ 0) (hroom : s.linePosition + 1 < ASH_CMD_SIZE) :
    ∃ s', insertKey ch s = some s' ∧ Refines s' (e.act (.insert ch)) := by
  have hcursor := h.cursor_le
  unfold insertKey
  rw [Editor.act, h.curpos]
  rw [h.position] at hroom ⊢
  rw [if_pos (by omega), if_pos hroom]
  obtain ⟨line, hline, hholds⟩ := h.line.insert hroom hcursor ch
  have hlen := List.length_insertIdx_of_le_length hcursor ch
  refine ⟨_, congrArg (Option.map _) hline, ?_⟩
  exact
    { h with
      line := hholds
      text := h.text.insertIdx hroom hcursor hch
      position := hlen.symm
      curpos := rfl
      cursor_le := show e.cursor + 1 ≤ (e.text.insertIdx e.cursor ch).length by omega }

/-- The shell `t` has the line of `s` in its history. -/
def Pushed (s : AshShell) (e : Editor) (t : AshShell) : Prop :=
  ∃ rows, HoldsHistory rows (pushText e.history e.text) ∧
    t = { s with
      cmdHistory := rows
      historyCount := (pushText e.history e.text).length
      currentHistory := (pushText e.history e.text).length }

/-- The history stays. -/
theorem push_same (h : Refines s e) (heq : pushText e.history e.text = e.history) :
    Pushed s e { s with currentHistory := s.historyCount } := by
  unfold Pushed
  rw [heq, ← h.count]
  exact ⟨s.cmdHistory, h.history, rfl⟩

theorem text_eq_nil_iff (h : Refines s e) : e.text = [] ↔ s.linePosition = 0 := by
  rw [h.position, List.length_eq_zero_iff]

/-- The history gets the text at its end. -/
theorem pushText_new (h : Refines s e) (hline : s.linePosition ≠ 0)
    (hrep : e.history.getLast? ≠ some e.text) :
    pushText e.history e.text = lastOf ASH_HISTORY_LINES (e.history ++ [e.text]) :=
  if_neg (not_or.mpr ⟨mt h.text_eq_nil_iff.mp hline, hrep⟩)

/-- The rows move up, and the last one gets the line. -/
theorem push_full (h : Refines s e) (hline : s.linePosition ≠ 0)
    (hfull : s.historyCount ≥ ASH_HISTORY_LINES) : Pushed s e (shellPushHistory s) := by
  have hlen : e.history.length = (ASH_HISTORY_LINES - 1) + 1 := by
    have hfew := h.history.few
    rw [h.count] at hfull
    exact Nat.le_antisymm hfew hfull
  have hne : e.history ≠ [] := List.ne_nil_of_length_eq_add_one hlen
  have hcmp := h.history.memcmp_last_iff hne h.line h.text
  rw [hlen, Nat.add_sub_cancel] at hcmp
  unfold shellPushHistory
  rw [if_pos hline, if_pos hfull]
  by_cases hrep : e.history.getLast? = some e.text
  · rw [if_neg (not_not.mpr (hcmp.mpr hrep))]
    exact h.push_same (if_pos (Or.inr hrep))
  · have hdrop : (e.history.drop 1).length = ASH_HISTORY_LINES - 1 := by
      rw [List.length_drop, hlen, Nat.add_sub_cancel]
    have hcount : (e.history.drop 1 ++ [e.text]).length = ASH_HISTORY_LINES := by
      rw [List.length_append, hdrop]
      rfl
    have hrows := (h.history.shift hlen).append (by rw [hdrop]; decide)
      (holdsText_store (a := shiftHistory (ASH_HISTORY_LINES - 1) 0 s.cmdHistory
        (ASH_HISTORY_LINES - 1)) h.line) h.text
    rw [hdrop, ← h.position] at hrows
    have hpush := (h.pushText_new hline hrep).trans (lastOf_append_singleton hlen e.text)
    unfold Pushed
    rw [if_pos (mt hcmp.mp hrep), hpush, hcount]
    exact ⟨_, hrows, rfl⟩

/-- The next row gets the line. -/
theorem push_room (h : Refines s e) (hline : s.linePosition ≠ 0)
    (hroom : ¬ s.historyCount ≥ ASH_HISTORY_LINES) : Pushed s e (shellPushHistory s) := by
  have hguard : (s.historyCount = 0 ∨ acoralMemcmp (s.cmdHistory (s.historyCount - 1)) s.line
      ASH_CMD_SIZE 0 ≠ 0) ↔ e.history.getLast? ≠ some e.text := by
    rw [h.count, List.length_eq_zero_iff]
    by_cases hne : e.history = []
    · rw [hne]
      exact iff_of_true (Or.inl rfl) nofun
    · rw [ne_eq, h.history.memcmp_last_iff hne h.line h.text]
      exact or_iff_right hne
  unfold shellPushHistory
  rw [if_pos hline, if_neg hroom]
  rw [h.count] at hroom
  by_cases hrep : e.history.getLast? = some e.text
  · rw [if_neg (fun hnew => hguard.mp hnew hrep)]
    exact h.push_same (if_pos (Or.inr hrep))
  · have hcount : (e.history ++ [e.text]).length = e.history.length + 1 := by
      rw [List.length_append, List.length_singleton]
    have hrows := h.history.append (by omega)
      (holdsText_store (a := s.cmdHistory e.history.length) h.line) h.text
    rw [← h.position, ← h.count] at hrows
    have hpush := (h.pushText_new hline hrep).trans (lastOf_eq_self (by omega))
    unfold Pushed
    rw [if_pos (hguard.mpr hrep), hpush, hcount, ← h.count]
    exact ⟨_, hrows, rfl⟩

/-- The line goes to the history. -/
theorem push (h : Refines s e) : Pushed s e (shellPushHistory s) := by
  by_cases hline : s.linePosition = 0
  · have hsame := h.push_same (if_pos (Or.inl (h.text_eq_nil_iff.mpr hline)))
    unfold shellPushHistory
    rw [if_neg (not_not.mpr hline)]
    exact hsame
  · by_cases hfull : s.historyCount ≥ ASH_HISTORY_LINES
    · exact h.push_full hline hfull
    · exact h.push_room hline hfull

/-- The text is executed, and the line is empty. -/
theorem enter (h : Refines s e) :
    ∃ s', enterKey s = some (e.text, s') ∧ Refines s' (e.act .enter) := by
  obtain ⟨rows, hrows, hpush⟩ := h.push
  unfold enterKey
  rw [hpush]
  refine ⟨_, congrArg (Option.map _) (h.line.stringOf_eq h.text), ?_⟩
  exact
    { stat := h.stat
      line := holdsText_memset
      text := IsText.nil
      position := rfl
      curpos := rfl
      cursor_le := Nat.le_refl _
      history := hrows
      count := rfl
      recalled := rfl
      recall_le := Nat.le_refl _ }

end Refines

/-! ### Steps -/

/-- The history, and the texts that have been executed. -/
def Editor.log (e : Editor) : List (List UInt8) × List (List UInt8) := (e.history, e.entered)

/-- Only Enter executes a text. -/
theorem log_act (e : Editor) {act : KeyAction} (hact : act ≠ .enter) : (e.act act).log = e.log := by
  have hrecall : ∀ i, (e.recallText i).log = e.log := by
    intro i
    unfold Editor.recallText
    split <;> rfl
  cases act with
  | nothing   => rfl
  | up        => rw [Editor.act, apply_ite Editor.log, hrecall, ite_self]
  | down      => rw [Editor.act, apply_ite Editor.log, hrecall, hrecall, ite_self]
  | left      => rfl
  | right     => rfl
  | backspace =>
      rw [Editor.act, apply_ite Editor.log]
      exact ite_self e.log
  | enter     => exact absurd rfl hact
  | insert ch =>
      rw [Editor.act, apply_ite Editor.log]
      exact ite_self e.log

/-- What a step of the shell answers and becomes is what the ideal editor does on the action. -/
def Answers (e : Editor) (act : KeyAction) (answer : Option (Option (List UInt8) × AshShell)) :
    Prop :=
  ∃ text s', answer = some (text, s') ∧ Refines s' (e.act act) ∧
    (e.act act).entered = e.entered ++ text.toList

/-- A key that executes nothing. -/
theorem Answers.quiet {act : KeyAction} (answer : Option AshShell) (hact : act ≠ .enter)
    (h : ∃ s', answer = some s' ∧ Refines s' (e.act act)) :
    Answers e act (answer.map fun s => (none, s)) := by
  obtain ⟨s', rfl, hs'⟩ := h
  refine ⟨none, s', rfl, hs', ?_⟩
  exact (congrArg Prod.snd (log_act e hact)).trans (List.append_nil _).symm

/-- The keys outside of the escape sequences. -/
theorem Refines.plain (h : Refines s e) (hch : ch ≠ 0)
    (hroom : ∀ c, plainAction ch = .insert c → s.linePosition + 1 < ASH_CMD_SIZE) :
    Answers e (plainAction ch) (switchKey ch s) := by
  unfold switchKey plainAction at *
  by_cases hback : ch = 0x08 ∨ ch = 0x7f
  · rw [if_pos hback, if_pos hback]
    exact Answers.quiet _ nofun h.backspace
  rw [if_neg hback] at hroom ⊢
  rw [if_neg hback]
  by_cases henter : ch = 0x0d ∨ ch = 0x0a
  · rw [if_pos henter, if_pos henter]
    obtain ⟨s', hs', hrefines⟩ := h.enter
    exact ⟨some e.text, s', congrArg (Option.map _) hs', hrefines, rfl⟩
  · rw [if_neg henter] at hroom ⊢
    rw [if_neg henter]
    exact Answers.quiet _ nofun (h.insert hch (hroom ch rfl))

/-- One character, while there is room for it. -/
theorem Refines.ashStep (h : Refines s e) (hch : ch ≠ 0)
    (hroom : ∀ c, (keyAction s.stat ch).2 = .insert c → s.linePosition + 1 < ASH_CMD_SIZE) :
    Answers { e with stat := (keyAction e.stat ch).1 } (keyAction e.stat ch).2
      (ACoral.ashStep ch s) := by
  rw [← h.stat]
  have hnothing : ∀ stat, Answers { e with stat := stat } .nothing
      (some (none, { s with stat := stat })) :=
    fun stat => Answers.quiet (some _) nofun ⟨_, rfl, h.withStat stat⟩
  have hplain := h.withStat WAIT_NORMAL
  unfold ACoral.ashStep keyAction at *
  by_cases hesc : ch = 0x1b
  · rw [if_pos hesc, if_pos hesc]
    exact hnothing WAIT_SPEC_KEY
  rw [if_neg hesc] at hroom ⊢
  rw [if_neg hesc]
  cases hstat : s.stat with
  | WAIT_NORMAL =>
      rw [hstat] at hroom
      have hs : s = { s with stat := WAIT_NORMAL } := by rw [← hstat]
      rw [hs]
      exact hplain.plain hch hroom
  | WAIT_SPEC_KEY =>
      rw [hstat] at hroom
      by_cases hfunc : ch = 0x5b
      · simp only [if_pos hfunc]
        exact hnothing WAIT_FUNC_KEY
      · simp only [if_neg hfunc] at hroom ⊢
        exact hplain.plain hch hroom
  | WAIT_FUNC_KEY =>
      rw [hstat] at hroom
      by_cases hup : ch = 0x41
      · simp only [if_pos hup]
        exact Answers.quiet _ nofun hplain.up
      by_cases hdown : ch = 0x42
      · simp only [if_neg hup, if_pos hdown]
        exact Answers.quiet _ nofun hplain.down
      by_cases hleft : ch = 0x44
      · simp only [if_neg hup, if_neg hdown, if_pos hleft]
        exact Answers.quiet (some _) nofun ⟨_, rfl, hplain.left⟩
      by_cases hright : ch = 0x43
      · simp only [if_neg hup, if_neg hdown, if_neg hleft, if_pos hright]
        exact Answers.quiet (some _) nofun ⟨_, rfl, hplain.right⟩
      · simp only [if_neg hup, if_neg hdown, if_neg hleft, if_neg hright] at hroom ⊢
        exact hplain.plain hch hroom

/-- The shell and the ideal editor have executed the same texts. -/
structure Tracks (r : AshRun) (e : Editor) : Prop where
  shell : Refines r.shell e
  entered : r.entered = e.entered

/-- The step of the shell and the one of the ideal editor. -/
theorem Tracks.step {r : AshRun} (h : Tracks r e) (ch : InputByte)
    (hguard : roomGuard r ch = true) :
    ∃ r' e', ashRunStep r ch = some r' ∧ editorStep e ch = some e' ∧ Tracks r' e' := by
  have hroom : ∀ c, (keyAction r.shell.stat ch.val).2 = .insert c →
      r.shell.linePosition + 1 < ASH_CMD_SIZE := by
    intro c hinsert
    rw [roomGuard, hinsert] at hguard
    exact of_decide_eq_true hguard
  obtain ⟨text, s', hs', hrefines, hentered⟩ := h.shell.ashStep ch.property hroom
  refine ⟨_, _, congrArg (Option.map _) hs', rfl, hrefines, ?_⟩
  rw [hentered, h.entered]

/-- A run of the shell and the one of the ideal editor. -/
theorem tracks_run {bytes : List InputByte} {r : AshRun}
    (hrun : run (guarded roomGuard ashRunStep) ashRunInit bytes = some r) :
    ∃ e, run editorStep editorInit bytes = some e ∧ Tracks r e := by
  have hinit : Tracks ashRunInit editorInit := ⟨Refines.init, rfl⟩
  refine guarded_simulates ?_ hinit hrun
  intro r e ch r' h hguard hstep
  obtain ⟨r'', e', hr'', he', h'⟩ := h.step ch hguard
  rw [hr'', Option.some.injEq] at hstep
  exact ⟨e', he', hstep ▸ h'⟩

/-- While no character is typed into the last byte, the shell refines the ideal editor: the
next character writes into the line only, the line is a string that ends at its length, its
text and its cursor are those of the ideal editor, and so are the texts that have been
executed. -/
theorem shell_refines {bytes : List InputByte} {r : AshRun}
    (hrun : run (guarded roomGuard ashRunStep) ashRunInit bytes = some r) :
    (∀ ch, roomGuard r ch = true → (ashRunStep r ch).isSome = true) ∧
      r.shell.linePosition < ASH_CMD_SIZE ∧ r.shell.line r.shell.linePosition = 0 ∧
      ∃ e, run editorStep editorInit bytes = some e ∧
        stringOf r.shell.line = some e.text ∧ r.shell.linePosition = e.text.length ∧
        r.shell.lineCurpos = e.cursor ∧ r.entered = e.entered := by
  obtain ⟨e, he, htracks⟩ := tracks_run hrun
  have hs := htracks.shell
  have hshort := hs.text.short
  refine ⟨fun ch hguard => ?_, ?_, ?_, e, he, hs.line.stringOf_eq hs.text, hs.position, hs.curpos,
    htracks.entered⟩
  · obtain ⟨r', -, hr', -, -⟩ := htracks.step ch hguard
    rw [hr']
    rfl
  · rw [hs.position]
    exact hshort
  · rw [hs.position]
    exact hs.line.fill_of_le hshort (Nat.le_refl _)

/-- The word `ls` is typed. -/
theorem shell_refines_ls :
    ∃ r, run (guarded roomGuard ashRunStep) ashRunInit
        [⟨0x6c, by decide⟩, ⟨0x73, by decide⟩] = some r ∧
      ∃ e, run editorStep editorInit [⟨0x6c, by decide⟩, ⟨0x73, by decide⟩] = some e ∧
        stringOf r.shell.line = some e.text := by
  have hrun : ∃ r, run (guarded roomGuard ashRunStep) ashRunInit
      [⟨0x6c, by decide⟩, ⟨0x73, by decide⟩] = some r :=
    Option.isSome_iff_exists.mp (by decide)
  obtain ⟨r, hr⟩ := hrun
  obtain ⟨-, -, -, e, he, htext, -⟩ := shell_refines hr
  exact ⟨r, hr, e, he, htext⟩

/-- The line has 79 characters, the cursor goes left, and another character is typed: the shell
writes behind the end of its line. The ideal editor ignores the character. -/
theorem shell_refines_fails :
    run ashRunStep ashRunInit (List.replicate 79 ⟨0x61, by decide⟩ ++
        [⟨0x1b, by decide⟩, ⟨0x5b, by decide⟩, ⟨0x44, by decide⟩, ⟨0x62, by decide⟩]) = none ∧
      (run editorStep editorInit (List.replicate 79 ⟨0x61, by decide⟩ ++
        [⟨0x1b, by decide⟩, ⟨0x5b, by decide⟩, ⟨0x44, by decide⟩, ⟨0x62, by decide⟩])).map
          Editor.text = some (List.replicate 79 0x61) := by
  constructor
  · exact Option.isNone_iff_eq_none.mp (by decide +kernel)
  · decide +kernel

end ACoral
