import ACoral.Kernel.Str

/-!
# `ACoral.Kernel.Shell`: the line editor of `components/ash/src/shell.c`

`ash_cmd_process` takes the characters that have been received one after the other, in order.
`ashStep` is the body of its loop for one character. What it prints is left out, and so is
`echo_mode`. On Enter it answers the text that it hands to `acoral_ash_cmd_exe`.

The line and the rows of the history are arrays of `ASH_CMD_SIZE` bytes. A write behind the
end of the line is `none`, and so is a string in an array that has no 0.

The ideal editor has a text, a cursor in it, and a list of texts as its history.
-/

set_option autoImplicit false

namespace ACoral

/-- `ASH_HISTORY_LINES`. -/
def ASH_HISTORY_LINES : Nat := 5

/-- `ASH_CMD_SIZE`. -/
def ASH_CMD_SIZE : Nat := 80

/-- `enum input_stat`. -/
inductive InputStat where
  | WAIT_NORMAL
  | WAIT_SPEC_KEY
  | WAIT_FUNC_KEY
deriving DecidableEq, Repr

open InputStat

/-- `struct ash_shell`. -/
structure AshShell where
  stat : InputStat
  currentHistory : Nat
  historyCount : Nat
  cmdHistory : Nat → Nat → UInt8
  line : Nat → UInt8
  linePosition : Nat
  lineCurpos : Nat

/-- The shell behind `acoral_ash_shell_init`. -/
def ashShellInit : AshShell where
  stat := WAIT_NORMAL
  currentHistory := 0
  historyCount := 0
  cmdHistory := fun _ _ => 0
  line := fun _ => 0
  linePosition := 0
  lineCurpos := 0

/-- `strlen` of an array of `ASH_CMD_SIZE` bytes. -/
def strlen (s : Nat → UInt8) : Option Nat := (List.range ASH_CMD_SIZE).find? fun i => s i = 0

/-- The string in an array of `ASH_CMD_SIZE` bytes. -/
def stringOf (s : Nat → UInt8) : Option (List UInt8) :=
  (strlen s).map fun n => (List.range n).map s

/-! ### The history -/

/-- The loop of `shell_push_history` from `index` on, for `count` more rows. -/
def shiftHistory : (count index : Nat) → (Nat → Nat → UInt8) → Nat → Nat → UInt8
  | 0,         _,     rows => rows
  | count + 1, index, rows =>
      shiftHistory count (index + 1)
        (Function.update rows index (acoralMemcpy (rows (index + 1)) ASH_CMD_SIZE 0 (rows index)))

/-- The row `index` is cleared and gets the line. -/
def storeHistory (s : AshShell) (rows : Nat → Nat → UInt8) (index : Nat) : Nat → Nat → UInt8 :=
  Function.update rows index
    (acoralMemcpy s.line s.linePosition 0 (acoralMemset 0 ASH_CMD_SIZE 0 (rows index)))

/-- `shell_push_history`. -/
def shellPushHistory (s : AshShell) : AshShell :=
  let t :=
    if s.linePosition ≠ 0 then
      if s.historyCount ≥ ASH_HISTORY_LINES then
        if acoralMemcmp (s.cmdHistory (ASH_HISTORY_LINES - 1)) s.line ASH_CMD_SIZE 0 ≠ 0 then
          { s with
            cmdHistory := storeHistory s (shiftHistory (ASH_HISTORY_LINES - 1) 0 s.cmdHistory)
              (ASH_HISTORY_LINES - 1)
            historyCount := ASH_HISTORY_LINES }
        else s
      else if s.historyCount = 0 ∨
          acoralMemcmp (s.cmdHistory (s.historyCount - 1)) s.line ASH_CMD_SIZE 0 ≠ 0 then
        { s with
          cmdHistory := storeHistory s s.cmdHistory s.historyCount
          historyCount := s.historyCount + 1 }
      else s
    else s
  { t with currentHistory := t.historyCount }

/-! ### Keys -/

/-- The row `index` of the history is copied to the line. -/
def recallHistory (index : Nat) (s : AshShell) : Option AshShell :=
  let line := acoralMemcpy (s.cmdHistory index) ASH_CMD_SIZE 0 s.line
  (strlen line).map fun n =>
    { s with currentHistory := index, line := line, linePosition := n, lineCurpos := n }

/-- The up key. -/
def upKey (s : AshShell) : Option AshShell :=
  if s.currentHistory > 0 then recallHistory (s.currentHistory - 1) s
  else some { s with currentHistory := 0 }

/-- The down key. -/
def downKey (s : AshShell) : Option AshShell :=
  if (s.currentHistory : Int) < s.historyCount - 1 then recallHistory (s.currentHistory + 1) s
  else if s.historyCount ≠ 0 then recallHistory (s.historyCount - 1) s
  else some s

/-- The left key. -/
def leftKey (s : AshShell) : AshShell :=
  if s.lineCurpos ≠ 0 then { s with lineCurpos := s.lineCurpos - 1 } else s

/-- The right key. -/
def rightKey (s : AshShell) : AshShell :=
  if s.lineCurpos < s.linePosition then { s with lineCurpos := s.lineCurpos + 1 } else s

/-- `line[i]=c`. -/
def writeLine (i : Nat) (c : UInt8) (line : Nat → UInt8) : Option (Nat → UInt8) :=
  if i < ASH_CMD_SIZE then some (Function.update line i c) else none

/-- `acoral_memmove` within the line. -/
def moveLine (dest src count : Nat) (line : Nat → UInt8) : Option (Nat → UInt8) :=
  if dest + count ≤ ASH_CMD_SIZE ∧ src + count ≤ ASH_CMD_SIZE then
    some (acoralMemmove dest src count line)
  else none

/-- The backspace key. -/
def backspaceKey (s : AshShell) : Option AshShell :=
  if s.lineCurpos ≠ 0 then
    let linePosition := s.linePosition - 1
    let lineCurpos := s.lineCurpos - 1
    let line :=
      if linePosition > lineCurpos then
        (moveLine lineCurpos (lineCurpos + 1) (linePosition - lineCurpos) s.line).bind
          (writeLine linePosition 0)
      else writeLine linePosition 0 s.line
    line.map fun line =>
      { s with line := line, linePosition := linePosition, lineCurpos := lineCurpos }
  else some s

/-- The Enter key, with the text that is executed. -/
def enterKey (s : AshShell) : Option (List UInt8 × AshShell) :=
  let s := shellPushHistory s
  (stringOf s.line).map fun text =>
    (text, { s with
      line := acoralMemset 0 ASH_CMD_SIZE 0 s.line
      lineCurpos := 0
      linePosition := 0 })

/-- Any other key. In a line that is full the shell begins anew, without clearing the line. -/
def insertKey (ch : UInt8) (s : AshShell) : Option AshShell :=
  if s.linePosition < ASH_CMD_SIZE then
    let line :=
      if s.lineCurpos < s.linePosition then
        ((moveLine (s.lineCurpos + 1) s.lineCurpos (s.linePosition - s.lineCurpos) s.line).bind
          (writeLine s.lineCurpos ch)).bind (writeLine (s.linePosition + 1) 0)
      else writeLine s.lineCurpos ch s.line
    line.map fun line =>
      { s with
        line := line, linePosition := s.linePosition + 1, lineCurpos := s.lineCurpos + 1 }
  else some { s with linePosition := 0, lineCurpos := 0 }

/-- The `switch` of `ash_cmd_process`. -/
def switchKey (ch : UInt8) (s : AshShell) : Option (Option (List UInt8) × AshShell) :=
  if ch = 0x08 ∨ ch = 0x7f then (backspaceKey s).map fun s => (none, s)
  else if ch = 0x0d ∨ ch = 0x0a then (enterKey s).map fun (text, s) => (some text, s)
  else (insertKey ch s).map fun s => (none, s)

/-- The body of the loop of `ash_cmd_process` on the character `ch`. -/
def ashStep (ch : UInt8) (s : AshShell) : Option (Option (List UInt8) × AshShell) :=
  if ch = 0x1b then some (none, { s with stat := WAIT_SPEC_KEY })
  else
    match s.stat with
    | WAIT_SPEC_KEY =>
        if ch = 0x5b then some (none, { s with stat := WAIT_FUNC_KEY })
        else switchKey ch { s with stat := WAIT_NORMAL }
    | WAIT_FUNC_KEY =>
        let s := { s with stat := WAIT_NORMAL }
        if ch = 0x41 then (upKey s).map fun s => (none, s)
        else if ch = 0x42 then (downKey s).map fun s => (none, s)
        else if ch = 0x44 then some (none, leftKey s)
        else if ch = 0x43 then some (none, rightKey s)
        else switchKey ch s
    | WAIT_NORMAL => switchKey ch s

/-! ### Streams of characters -/

/-- A character as the loop of `ash_cmd_process` takes it: a 0 is an empty place of its
buffer. -/
abbrev InputByte := { ch : UInt8 // ch ≠ 0 }

/-- The shell, and the texts that have been entered so far. -/
structure AshRun where
  shell : AshShell
  entered : List (List UInt8)

/-- Nothing has been typed. -/
def ashRunInit : AshRun := ⟨ashShellInit, []⟩

/-- One character. -/
def ashRunStep (r : AshRun) (ch : InputByte) : Option AshRun :=
  (ashStep ch.val r.shell).map fun (text, shell) => ⟨shell, r.entered ++ text.toList⟩

/-! ### The ideal editor -/

/-- What a key does. -/
inductive KeyAction where
  | nothing
  | up
  | down
  | left
  | right
  | backspace
  | enter
  | insert (ch : UInt8)
deriving DecidableEq, Repr

/-- The action of a character that does not belong to an escape sequence. -/
def plainAction (ch : UInt8) : KeyAction :=
  if ch = 0x08 ∨ ch = 0x7f then .backspace
  else if ch = 0x0d ∨ ch = 0x0a then .enter
  else .insert ch

/-- The three characters of an arrow key are one action. In any other sequence the escape
characters are dropped. -/
def keyAction (stat : InputStat) (ch : UInt8) : InputStat × KeyAction :=
  if ch = 0x1b then (WAIT_SPEC_KEY, .nothing)
  else
    match stat with
    | WAIT_SPEC_KEY => if ch = 0x5b then (WAIT_FUNC_KEY, .nothing) else (WAIT_NORMAL, plainAction ch)
    | WAIT_FUNC_KEY =>
        (WAIT_NORMAL,
          if ch = 0x41 then .up
          else if ch = 0x42 then .down
          else if ch = 0x44 then .left
          else if ch = 0x43 then .right
          else plainAction ch)
    | WAIT_NORMAL => (WAIT_NORMAL, plainAction ch)

/-- The ideal editor. -/
structure Editor where
  stat : InputStat
  text : List UInt8
  cursor : Nat
  history : List (List UInt8)
  recalled : Nat
  entered : List (List UInt8)
deriving DecidableEq, Repr

/-- The ideal editor at the start. -/
def editorInit : Editor := ⟨WAIT_NORMAL, [], 0, [], 0, []⟩

/-- The last `n` elements of a list. -/
def lastOf {A : Type} (n : Nat) (l : List A) : List A := l.drop (l.length - n)

/-- A history gets a text, unless it is empty or the last one already. -/
def pushText (history : List (List UInt8)) (text : List UInt8) : List (List UInt8) :=
  if text = [] ∨ history.getLast? = some text then history
  else lastOf ASH_HISTORY_LINES (history ++ [text])

/-- The text `i` of the history goes to the line. -/
def Editor.recallText (e : Editor) (i : Nat) : Editor :=
  match e.history[i]? with
  | none      => e
  | some text => { e with recalled := i, text := text, cursor := text.length }

/-- One action. -/
def Editor.act (e : Editor) : KeyAction → Editor
  | .nothing   => e
  | .up        => if e.recalled > 0 then e.recallText (e.recalled - 1) else e
  | .down      =>
      if e.recalled + 1 < e.history.length then e.recallText (e.recalled + 1)
      else e.recallText (e.history.length - 1)
  | .left      => { e with cursor := e.cursor - 1 }
  | .right     => { e with cursor := min (e.cursor + 1) e.text.length }
  | .backspace =>
      if e.cursor = 0 then e
      else { e with text := e.text.eraseIdx (e.cursor - 1), cursor := e.cursor - 1 }
  | .enter     =>
      { e with
        text := []
        cursor := 0
        history := pushText e.history e.text
        recalled := (pushText e.history e.text).length
        entered := e.entered ++ [e.text] }
  | .insert ch =>
      if e.text.length + 1 < ASH_CMD_SIZE then
        { e with text := e.text.insertIdx e.cursor ch, cursor := e.cursor + 1 }
      else e

/-- One character. -/
def editorStep (e : Editor) (ch : InputByte) : Option Editor :=
  some ({ e with stat := (keyAction e.stat ch.val).1 }.act (keyAction e.stat ch.val).2)

/-! ### When the shell keeps up with it -/

/-- No other character is typed while the line has one byte left only. -/
def roomGuard (r : AshRun) (ch : InputByte) : Bool :=
  match (keyAction r.shell.stat ch.val).2 with
  | .insert _ => decide (r.shell.linePosition + 1 < ASH_CMD_SIZE)
  | _         => true

end ACoral
