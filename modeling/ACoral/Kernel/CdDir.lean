import ACoral.Kernel.Shell

/-!
# `ACoral.Kernel.CdDir`: the command `cd` of `components/ash/src/cmd.c`

`cd_dir` takes the components of its argument off one by one, and puts each of them to the end
of `path`, which starts as the current directory. Of the root it is the empty string. After
each component `f_opendir` is asked for the path.

A string is the list of its characters before the 0. `path` is an array of `ASH_CMD_SIZE`
bytes that are 0 behind its string; a write behind its end is `none`. `f_opendir` may answer in
any way, but always the same for the same path. `scratch` counts the blocks of
`acoral_vol_malloc` that have not been freed, and the memory at `cur_dir` is taken to have room.

The directory that the shell should be in is a list of names. Each component is applied to it
(`applyComponent`), and what is between two slashes is a component even if it is empty.
-/

set_option autoImplicit false

namespace ACoral

/-- `'/'`. -/
def SLASH : UInt8 := 0x2f

/-- `"."`. -/
def DOT : List UInt8 := [0x2e]

/-- `".."`. -/
def DOTDOT : List UInt8 := [0x2e, 0x2e]

/-- `acoral_str_chr`, where `pos` is the position of the first character. -/
def acoralStrChr (c : UInt8) : (s : List UInt8) → (pos : Nat) → Nat
  | [],     pos => if c = 0 then pos else 0
  | x :: s, pos => if x = c then pos else acoralStrChr c s (pos + 1)

/-- The loop of `acoral_str_rchr` from the position `pos` down. -/
def rchrLoop (c : UInt8) (s : List UInt8) : (pos : Nat) → Nat
  | 0       => 0
  | pos + 1 => if s[pos]? = some c then pos + 1 else rchrLoop c s pos

/-- `acoral_str_rchr`. -/
def acoralStrRchr (c : UInt8) (s : List UInt8) : Nat := rchrLoop c s s.length

/-- `acoral_str_cat` to `path`. -/
def catPath (path s : List UInt8) : Option (List UInt8) :=
  if path.length + s.length < ASH_CMD_SIZE then some (path ++ s) else none

/-- The fields of the shell that `cd_dir` changes, and the blocks it has allocated. -/
structure CdShell where
  curDir : List UInt8
  dirChange : Bool
  scratch : Nat
deriving DecidableEq, Repr

/-- The last component of `path` is overwritten with zeros. -/
def upDir (path : List UInt8) : List UInt8 :=
  let pos2 : Int := acoralStrRchr SLASH path - 1
  if pos2 ≥ 0 then path.take pos2.toNat else path

/-- A component that has others behind it. -/
def innerStep (tmp path : List UInt8) : Option (List UInt8) :=
  if tmp = DOTDOT then some (upDir path)
  else if tmp ≠ DOT then (catPath path [SLASH]).bind fun path => catPath path tmp
  else some path

/-- `if(path[0] == '\0') path[0] = '/'`. -/
def rootIfEmpty (path : List UInt8) : List UInt8 := if path = [] then [SLASH] else path

/-- The last component. -/
def lastStep (arg path : List UInt8) : Option (List UInt8) :=
  if arg = DOTDOT then some (rootIfEmpty (upDir path))
  else if arg = DOT then some (rootIfEmpty path)
  else (catPath path [SLASH]).bind fun path => catPath path arg

/-- The shell goes to `path`. -/
def CdShell.setDir (path : List UInt8) (s : CdShell) : CdShell :=
  if s.curDir ≠ path then { s with curDir := path, dirChange := true } else s

/-- The `do` loop of `cd_dir`. When a component that has others behind it cannot be opened,
the loop goes on with the argument as it is. -/
def cdLoop (opens : List UInt8 → Bool) :
    (fuel : Nat) → (arg path : List UInt8) → CdShell → Option CdShell
  | 0,        _,   _,    _ => none
  | fuel + 1, arg, path, s =>
      let arg := if arg.head? = some SLASH then arg.drop 1 else arg
      let pos1 : Int := acoralStrChr SLASH arg 1 - 1
      if pos1 ≥ 0 then
        let tmp := arg.take pos1.toNat
        let s := { s with scratch := s.scratch + 1 }
        (innerStep tmp path).bind fun path =>
          if opens path then
            cdLoop opens fuel (arg.drop pos1.toNat) path { s with scratch := s.scratch - 1 }
          else cdLoop opens fuel arg path s
      else
        (lastStep arg path).map fun path => if opens path then s.setDir path else s

/-- A slash at the end of the argument goes. In an empty argument the character that is looked
at is not of the argument. -/
def cutSlash (arg : List UInt8) : List UInt8 :=
  let posLast : Int := acoralStrChr 0 arg 1 - 2
  if posLast ≥ 0 ∧ arg[posLast.toNat]? = some SLASH then arg.take posLast.toNat else arg

/-- `cd_dir`. -/
def cdDir (opens : List UInt8 → Bool) (fuel : Nat) (argv : List (List UInt8)) (s : CdShell) :
    Option CdShell :=
  match argv with
  | [_, arg] =>
      let path := if s.curDir ≠ [SLASH] then catPath [] s.curDir else some []
      path.bind fun path => cdLoop opens fuel (cutSlash arg) path s
  | [_]      => some (s.setDir [SLASH])
  | _        => some s

/-! ### Directories -/

/-- The path of a directory, with the empty string for the root. -/
def render (dir : List (List UInt8)) : List UInt8 := dir.flatMap fun name => SLASH :: name

/-- The string that shows a directory. -/
def showDir (dir : List (List UInt8)) : List UInt8 := rootIfEmpty (render dir)

/-- A component applied to a directory. -/
def applyComponent (dir : List (List UInt8)) (c : List UInt8) : List (List UInt8) :=
  if c = DOTDOT then dir.dropLast else if c = DOT then dir else dir ++ [c]

/-- The components of an argument, without a slash at its start and at its end. -/
def components (arg : List UInt8) : List (List UInt8) :=
  let arg := if arg.getLast? = some SLASH then arg.dropLast else arg
  let arg := if arg.head? = some SLASH then arg.drop 1 else arg
  arg.splitOn SLASH

/-- Every component can be opened. -/
def AllOpen (opens : List UInt8 → Bool) : (dir comps : List (List UInt8)) → Prop
  | _,   []      => True
  | dir, [c]     => opens (showDir (applyComponent dir c)) = true
  | dir, c :: cs =>
      opens (render (applyComponent dir c)) = true ∧ AllOpen opens (applyComponent dir c) cs

/-- Every component but the last can be opened, and the paths have room. -/
def Passable (opens : List UInt8 → Bool) : (dir comps : List (List UInt8)) → Prop
  | _,   []      => True
  | dir, [c]     => (render (applyComponent dir c)).length < ASH_CMD_SIZE
  | dir, c :: cs =>
      (render (applyComponent dir c)).length < ASH_CMD_SIZE ∧
      opens (render (applyComponent dir c)) = true ∧ Passable opens (applyComponent dir c) cs

/-- The shell shows that it is in a directory. -/
structure ShowsDir (s : CdShell) (dir : List (List UInt8)) : Prop where
  curDir : s.curDir = showDir dir
  short : s.curDir.length < ASH_CMD_SIZE
  names : ∀ name ∈ dir, SLASH ∉ name
  root : dir ≠ [[]]

/-- `cd_dir` returns, and all that it has allocated is free. If every component can be opened,
the shell shows the directory after all of them, and otherwise the one it has been in. -/
def ChangesDir (opens : List UInt8 → Bool) (s : CdShell) (dir : List (List UInt8))
    (argv : List (List UInt8)) (comps : List (List UInt8)) : Prop :=
  ∃ fuel s', cdDir opens fuel argv s = some s' ∧ s'.scratch = s.scratch ∧
    (AllOpen opens dir comps → s'.curDir = showDir (comps.foldl applyComponent dir)) ∧
    (¬ AllOpen opens dir comps → s'.curDir = s.curDir)

end ACoral
