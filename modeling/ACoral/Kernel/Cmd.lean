import ACoral.Kernel.Str

/-!
# `ACoral.Kernel.Cmd`: command lines of `components/ash/src/cmd.c`

`parse_args` cuts a line into arguments. It walks over the line with `argstr`, stores a
pointer for each argument in `argv`, and puts a 0 behind it. `acoral_ash_cmd_exe` calls it
again and again on what is left of the line.

The memory of the line is a list of bytes, and a pointer into it is an index. A read behind
the end of the list is `none`. Every write is to the byte that has just been read. The cells
of `argv` are stored to in order, so `argv` is the list of what has been stored.

What a command does is not modelled, and it is taken to leave the rest of the line alone.
-/

set_option autoImplicit false

namespace ACoral

/-- `MAX_ARGS_NUM`. -/
def MAX_ARGS_NUM : Nat := 8

/-- `enum parse_state`. -/
inductive ParseState where
  | PS_WHITESPACE
  | PS_TOKEN
  | PS_STRING
  | PS_ESCAPE
deriving DecidableEq, Repr

open ParseState

/-- The characters that `parse_args` looks for. -/
def SPACE : UInt8 := 0x20
def TAB : UInt8 := 0x09
def QUOTE : UInt8 := 0x22
def BACKSLASH : UInt8 := 0x5c
def SEMICOLON : UInt8 := 0x3b

/-! ### `parse_args` -/

/-- The line, and the variables of `parse_args` that the loop changes. `argc` is the length
of `argv`. -/
structure Parse where
  buf : List UInt8
  argstr : Nat
  argv : List Nat
  stackedState : ParseState
deriving DecidableEq, Repr

namespace Parse

/-- `*argstr=0`. -/
def clear (s : Parse) : Parse := { s with buf := s.buf.set s.argstr 0 }

/-- `argstr++`. -/
def advance (s : Parse) : Parse := { s with argstr := s.argstr + 1 }

/-- `argv[argc++]=argstr`. -/
def push (s : Parse) : Parse := { s with argv := s.argv ++ [s.argstr] }

end Parse

/-- The body of the loop on the character `c`, when it does not break: the new state, and the
variables before the last `argstr++`. -/
def parseChar (c : UInt8) (lastState : ParseState) (s : Parse) : ParseState × Parse :=
  if lastState = PS_ESCAPE then (s.stackedState, s)
  else if lastState = PS_STRING then
    if c = QUOTE then (PS_WHITESPACE, s.clear) else (PS_STRING, s)
  else if c = SPACE ∨ c = TAB then (PS_WHITESPACE, s.clear)
  else if c = QUOTE then (PS_STRING, s.clear.advance.push)
  else if c = BACKSLASH then (PS_ESCAPE, { s with stackedState := lastState })
  else (PS_TOKEN, if lastState = PS_WHITESPACE then s.push else s)

/-- The loop of `parse_args`. -/
def parseLoop : (fuel : Nat) → (lastState : ParseState) → Parse → Option Parse
  | 0,        _,         _ => none
  | fuel + 1, lastState, s =>
      s.buf[s.argstr]?.bind fun c =>
        if c ≠ 0 ∧ s.argv.length < MAX_ARGS_NUM then
          if c = SEMICOLON ∧ lastState ≠ PS_STRING ∧ lastState ≠ PS_ESCAPE then some s
          else parseLoop fuel (parseChar c lastState s).1 (parseChar c lastState s).2.advance
        else some s

/-- What a call of `parse_args` leaves behind: the line, the cells of `argv` that it has
stored to, with `NULL` as `none`, `argc`, `*resid` and `*stacked`. -/
structure ParseArgs where
  buf : List UInt8
  argv : List (Option Nat)
  argc : Nat
  resid : Nat
  stacked : ParseState
deriving DecidableEq, Repr

/-- `parse_args` on the line at `argstr`. -/
def parseArgs (fuel : Nat) (buf : List UInt8) (argstr : Nat) (stacked : ParseState) :
    Option ParseArgs :=
  (parseLoop fuel PS_WHITESPACE ⟨buf, argstr, [], stacked⟩).bind fun s =>
    s.buf[s.argstr]?.map fun c =>
      let t := if c = SEMICOLON then s.clear.advance else s
      { buf := t.buf
        argv := s.argv.map some ++ [none]
        argc := s.argv.length
        resid := t.argstr
        stacked := s.stackedState }

/-! ### `acoral_ash_cmd_exe` -/

/-- A call of `parse_args`, with the part of the line it was for. If `argc` is not 0, a
command is executed with the arguments. -/
structure CmdCall where
  start : Nat
  argv : List (Option Nat)
  argc : Nat
deriving DecidableEq, Repr

/-- The loop of `acoral_ash_cmd_exe`, for `rounds` commands at most. -/
def cmdExeLoop (fuel : Nat) :
    (rounds : Nat) → (mem : List UInt8) → (buf : Nat) → ParseState → Option (List CmdCall)
  | 0,          _,   _,   _            => none
  | rounds + 1, mem, buf, stackedState =>
      mem[buf]?.bind fun c =>
        if c = 0 then some []
        else
          (parseArgs fuel mem buf stackedState).bind fun r =>
            (cmdExeLoop fuel rounds r.buf r.resid r.stacked).map fun calls =>
              ⟨buf, r.argv, r.argc⟩ :: calls

/-- `acoral_ash_cmd_exe`: the calls of `parse_args` in order, and `none` if it reads behind
the end of the memory, or does not end within `fuel` rounds. `stacked_state` has any value at
the start. -/
def acoralAshCmdExe (fuel : Nat) (line : List UInt8) (stackedState : ParseState) :
    Option (List CmdCall) :=
  cmdExeLoop fuel fuel line 0 stackedState

/-- The string at a pointer. -/
def strAt (buf : List UInt8) (p : Nat) : List UInt8 := (buf.drop p).takeWhile (· ≠ 0)

/-- The strings that the pointers in `argv` lead to. -/
def ParseArgs.strings (r : ParseArgs) : List (List UInt8) :=
  (r.argv.filterMap id).map (strAt r.buf)

/-! ### Commands of a line -/

/-- Where in a line a character stands: between arguments, in an argument, directly behind an
opening quote, further between quotes, or behind a backslash. -/
inductive LexState where
  | blank
  | word
  | opened
  | quoted
  | escaped (inWord : Bool)
deriving DecidableEq, Repr

namespace LexState

/-- The character ends the command. -/
def separates (l : LexState) (c : UInt8) : Bool :=
  (l = blank || l = word) && decide (c = SEMICOLON)

/-- An argument starts with the character, or behind it if it is a quote. -/
def starts (l : LexState) (c : UInt8) : Bool :=
  (l = blank || l = word) && decide (c = QUOTE) ||
    l = blank && !(c = SPACE || c = TAB || c = QUOTE || c = BACKSLASH || c = SEMICOLON)

/-- The place of the next character. The first one behind an opening quote is taken as it
is. -/
def next (l : LexState) (c : UInt8) : LexState :=
  match l with
  | opened         => quoted
  | quoted         => if c = QUOTE then blank else quoted
  | escaped inWord => if inWord then word else blank
  | blank | word   =>
      if c = SEMICOLON ∨ c = SPACE ∨ c = TAB then blank
      else if c = QUOTE then opened
      else if c = BACKSLASH then escaped (l = word)
      else word

end LexState

/-- The place of the character `p` of the line. -/
def lexAfter (line : List UInt8) (p : Nat) : LexState := (line.take p).foldl LexState.next .blank

/-- A command starts at `p`: the line does, or the character before ends a command. -/
def IsCommandStart (text : List UInt8) (p : Nat) : Prop :=
  p = 0 ∨ ∃ q c, p = q + 1 ∧ text[q]? = some c ∧ (lexAfter text q).separates c = true

/-- From the place `l` on, with `n` arguments of the command before, no command has
`MAX_ARGS_NUM` arguments or more, and the last character does not open a string. -/
def fewArgs : LexState → (n : Nat) → List UInt8 → Bool
  | l, _, []     => decide (l ≠ .opened)
  | l, n, c :: cs =>
      if l.separates c then fewArgs .blank 0 cs
      else decide (n + (l.starts c).toNat < MAX_ARGS_NUM) &&
        fewArgs (l.next c) (n + (l.starts c).toNat) cs

/-- The line is split in bounds: `acoral_ash_cmd_exe` ends without a read or a write behind
the 0 of the line, stores to the cells of `argv` only, and cuts the line where commands
start. -/
def SplitsInBounds (line : List UInt8) (stackedState : ParseState) : Prop :=
  ∃ fuel calls, acoralAshCmdExe fuel (line ++ [0]) stackedState = some calls ∧
    ∀ call ∈ calls, call.argv.length ≤ MAX_ARGS_NUM ∧ IsCommandStart line call.start

end ACoral
