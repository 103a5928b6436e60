import ACoral.Kernel.Cmd

/-!
# `ACoral.Proofs.CmdBounds`: when a command line is split in bounds

`parse_args` stores `NULL` behind the arguments, in the cell `argc` of an array of
`MAX_ARGS_NUM`. Its loop ends when `argc` is `MAX_ARGS_NUM`, wherever it is in the line, and
`acoral_ash_cmd_exe` takes the rest for another command. Behind an opening quote the loop
skips a character without looking at it, which may be the 0 of the line.

So a line is split in bounds exactly when no command of it has `MAX_ARGS_NUM` arguments or
more and its last character does not open a string (`splitsInBounds_iff`).

`At` relates the variables of `parse_args` to the place in the line as `LexState` has it: the
rest of the line is not changed yet, and the states match. `At.step` and `At.opened` are the
two kinds of rounds. From them `parseLoop_fewArgs` and `parseLoop_returns` say how the loop
ends, and that it ends.
-/

set_option autoImplicit false

namespace ACoral

open ParseState LexState

variable {line cs : List UInt8} {c : UInt8} {s t : Parse} {last : ParseState} {l : LexState}
  {fuel p : Nat}

/-! ### Places in a line -/

/-- The states of `parse_args` for a place in the line. Directly behind an opening quote it
never is. -/
def LexState.Code : LexState → (last stacked : ParseState) → Prop
  | blank,          last, _       => last = PS_WHITESPACE
  | word,           last, _       => last = PS_TOKEN
  | opened,         _,    _       => False
  | quoted,         last, _       => last = PS_STRING
  | escaped inWord, last, stacked =>
      last = PS_ESCAPE ∧ stacked = if inWord then PS_TOKEN else PS_WHITESPACE

/-- A character of the line is not the 0. -/
theorem ne_zero_of_drop (h0 : 0 ∉ line) (h : line.drop p = c :: cs) : c ≠ 0 := by
  rintro rfl
  have hmem : 0 ∈ line.drop p := by
    rw [h]
    exact List.mem_cons_self
  exact h0 (List.mem_of_mem_drop hmem)

theorem lexAfter_succ (h : line.drop p = c :: cs) :
    lexAfter line (p + 1) = (lexAfter line p).next c := by
  have hc : (line)[p]? = some c := by
    rw [← List.head?_drop, h, List.head?_cons]
  unfold lexAfter
  rw [List.take_add_one, hc, Option.toList_some, List.foldl_append, List.foldl_cons, List.foldl_nil]

/-- `argstr` stands at the place `l` of the line, and the line is as it was from there on. -/
structure At (line : List UInt8) (s : Parse) (last : ParseState) (l : LexState) : Prop where
  suffix : s.buf.drop s.argstr = line.drop s.argstr ++ [0]
  le : s.argstr ≤ line.length
  lex : lexAfter line s.argstr = l
  code : l.Code last s.stackedState

namespace At

/-- At the end of the line there is the 0. -/
theorem read_nil (h : At line s last l) (hnil : line.drop s.argstr = []) :
    s.buf[s.argstr]? = some 0 := by
  rw [← List.head?_drop, h.suffix, hnil, List.nil_append, List.head?_cons]

theorem read_cons (h : At line s last l) (hcons : line.drop s.argstr = c :: cs) :
    s.buf[s.argstr]? = some c := by
  rw [← List.head?_drop, h.suffix, hcons, List.cons_append, List.head?_cons]

/-- Behind the current character the line is as it was, too. -/
theorem suffix_succ (h : At line s last l) (hcons : line.drop s.argstr = c :: cs) :
    s.buf.drop (s.argstr + 1) = line.drop (s.argstr + 1) ++ [0] := by
  rw [← List.drop_drop, ← List.drop_drop, h.suffix, hcons]
  rfl

theorem ne_opened (h : At line s last l) : l ≠ opened := by
  rintro rfl
  exact h.code

/-- The loop breaks exactly at the characters that end a command. -/
theorem break_iff (h : At line s last l) :
    (c = SEMICOLON ∧ last ≠ PS_STRING ∧ last ≠ PS_ESCAPE) ↔ l.separates c = true := by
  have hcode := h.code
  cases l with
  | blank =>
      obtain rfl : last = PS_WHITESPACE := hcode
      simp [separates]
  | word =>
      obtain rfl : last = PS_TOKEN := hcode
      simp [separates]
  | opened => exact absurd rfl h.ne_opened
  | quoted =>
      obtain rfl : last = PS_STRING := hcode
      simp [separates]
  | escaped inWord =>
      obtain rfl : last = PS_ESCAPE := hcode.1
      simp [separates]

/-- A round that goes on with the next character of the line, whatever it writes to the
current one. -/
theorem round (h : At line s last l) (hcons : line.drop s.argstr = c :: cs)
    (newState : ParseState) (t : Parse) (hchar : parseChar c last s = (newState, t))
    (hargstr : t.argstr = s.argstr) (hbuf : t.buf = s.buf ∨ t.buf = s.buf.set s.argstr 0)
    (hcode : (l.next c).Code newState t.stackedState)
    (hargv : t.argv.length = s.argv.length + (l.starts c).toNat) :
    At line (parseChar c last s).2.advance (parseChar c last s).1 (l.next c) ∧
      (parseChar c last s).2.argstr = s.argstr ∧
      (parseChar c last s).2.argv.length = s.argv.length + (l.starts c).toNat := by
  rw [hchar]
  refine ⟨⟨?_, ?_, ?_, hcode⟩, hargstr, hargv⟩
  · show t.buf.drop (t.argstr + 1) = line.drop (t.argstr + 1) ++ [0]
    rw [hargstr, ← h.suffix_succ hcons]
    rcases hbuf with hbuf | hbuf
    · rw [hbuf]
    · rw [hbuf, List.drop_set_of_lt (Nat.lt_succ_self _)]
  · have hlength := congrArg List.length hcons
    rw [List.length_drop, List.length_cons] at hlength
    show t.argstr + 1 ≤ line.length
    omega
  · show lexAfter line (t.argstr + 1) = l.next c
    rw [hargstr, lexAfter_succ hcons, h.lex]

/-- The round of a character that neither ends the command nor opens a string. -/
theorem step (h : At line s last l) (hcons : line.drop s.argstr = c :: cs)
    (hsep : l.separates c = false) (hnext : l.next c ≠ opened) :
    At line (parseChar c last s).2.advance (parseChar c last s).1 (l.next c) ∧
      (parseChar c last s).2.argstr = s.argstr ∧
      (parseChar c last s).2.argv.length = s.argv.length + (l.starts c).toNat := by
  have hcode := h.code
  -- the characters that `parseChar` need not see outside of strings
  have hword : l = blank ∨ l = word → c ≠ SEMICOLON ∧ c ≠ QUOTE := by
    intro hl
    constructor
    · rintro rfl
      rcases hl with rfl | rfl <;> exact absurd hsep (by decide)
    · rintro rfl
      rcases hl with rfl | rfl <;> exact hnext (by decide)
  cases l with
  | blank =>
      obtain rfl : last = PS_WHITESPACE := hcode
      obtain ⟨hsemi, hquote⟩ := hword (Or.inl rfl)
      by_cases hblank : c = SPACE ∨ c = TAB
      · exact h.round hcons PS_WHITESPACE s.clear (by simp [parseChar, hblank]) rfl (Or.inr rfl)
          (by simp [next, hblank, Code]) (by rcases hblank with rfl | rfl <;> rfl)
      · by_cases hback : c = BACKSLASH
        · subst hback
          exact h.round hcons PS_ESCAPE { s with stackedState := PS_WHITESPACE } rfl rfl
            (Or.inl rfl) ⟨rfl, rfl⟩ rfl
        · exact h.round hcons PS_TOKEN s.push (by simp [parseChar, hblank, hquote, hback]) rfl
            (Or.inl rfl) (by simp [next, not_or.mp hblank, hsemi, hquote, hback, Code])
            (by simp [starts, not_or.mp hblank, hsemi, hquote, hback, Parse.push])
  | word =>
      obtain rfl : last = PS_TOKEN := hcode
      obtain ⟨hsemi, hquote⟩ := hword (Or.inr rfl)
      by_cases hblank : c = SPACE ∨ c = TAB
      · exact h.round hcons PS_WHITESPACE s.clear (by simp [parseChar, hblank]) rfl (Or.inr rfl)
          (by simp [next, hblank, Code]) (by rcases hblank with rfl | rfl <;> rfl)
      · by_cases hback : c = BACKSLASH
        · subst hback
          exact h.round hcons PS_ESCAPE { s with stackedState := PS_TOKEN } rfl rfl
            (Or.inl rfl) ⟨rfl, rfl⟩ rfl
        · exact h.round hcons PS_TOKEN s (by simp [parseChar, hblank, hquote, hback]) rfl
            (Or.inl rfl) (by simp [next, not_or.mp hblank, hsemi, hquote, hback, Code])
            (by simp [starts, hquote])
  | opened => exact absurd rfl h.ne_opened
  | quoted =>
      obtain rfl : last = PS_STRING := hcode
      by_cases hquote : c = QUOTE
      · exact h.round hcons PS_WHITESPACE s.clear (by simp [parseChar, hquote]) rfl (Or.inr rfl)
          (by simp [next, hquote, Code]) (by simp [starts, Parse.clear])
      · exact h.round hcons PS_STRING s (by simp [parseChar, hquote]) rfl (Or.inl rfl)
          (by simp [next, hquote, Code]) (by simp [starts])
  | escaped inWord =>
      obtain ⟨rfl, hstacked⟩ := hcode
      exact h.round hcons s.stackedState s (by simp [parseChar]) rfl (Or.inl rfl)
        (by cases inWord <;> simp [next, Code, hstacked]) (by simp [starts])

/-- A string is opened by a quote outside of strings only. -/
theorem of_next_opened (hnext : l.next c = opened) : (l = blank ∨ l = word) ∧ c = QUOTE := by
  cases l with
  | blank =>
      simp only [next] at hnext
      split at hnext
      · cases hnext
      · split at hnext
        · exact ⟨Or.inl rfl, by assumption⟩
        · split at hnext <;> cases hnext
  | word =>
      simp only [next] at hnext
      split at hnext
      · cases hnext
      · split at hnext
        · exact ⟨Or.inr rfl, by assumption⟩
        · split at hnext <;> cases hnext
  | opened => cases hnext
  | quoted =>
      simp only [next] at hnext
      split at hnext <;> cases hnext
  | escaped inWord => cases inWord <;> cases hnext

/-- The round of a quote that opens a string. -/
theorem open_quote (h : At line s last l) (hnext : l.next c = opened) :
    parseChar c last s = (PS_STRING, s.clear.advance.push) ∧ l.starts c = true := by
  obtain ⟨hl, rfl⟩ := of_next_opened hnext
  have hcode := h.code
  rcases hl with rfl | rfl
  · obtain rfl : last = PS_WHITESPACE := hcode
    exact ⟨rfl, rfl⟩
  · obtain rfl : last = PS_TOKEN := hcode
    exact ⟨rfl, rfl⟩

/-- Behind the quote and the next character, `argstr` is in the string. -/
theorem in_string {d : UInt8} {ds : List UInt8} (h : At line s last l)
    (hcons : line.drop s.argstr = c :: d :: ds) (hnext : l.next c = opened) :
    At line s.clear.advance.push.advance PS_STRING quoted where
  suffix := by
    show (s.buf.set s.argstr 0).drop (s.argstr + 2) = line.drop (s.argstr + 2) ++ [0]
    rw [List.drop_set_of_lt (by omega), ← List.drop_drop, ← List.drop_drop, h.suffix, hcons]
    rfl
  le := by
    have hlength := congrArg List.length hcons
    rw [List.length_drop, List.length_cons, List.length_cons] at hlength
    show s.argstr + 2 ≤ line.length
    omega
  lex := by
    have hcons' : line.drop (s.argstr + 1) = d :: ds := by
      rw [← List.drop_drop, hcons]
      rfl
    show lexAfter line (s.argstr + 1 + 1) = quoted
    rw [lexAfter_succ hcons', lexAfter_succ hcons, h.lex, hnext]
    rfl
  code := rfl

end At

/-! ### One round of the loop -/

theorem fewArgs_next (hsep : l.separates c = false) (n : Nat) (cs : List UInt8) :
    fewArgs l n (c :: cs) = (decide (n + (l.starts c).toNat < MAX_ARGS_NUM) &&
      fewArgs (l.next c) (n + (l.starts c).toNat) cs) := by
  rw [fewArgs, hsep, if_neg Bool.false_ne_true]

/-- What a round does that does not end the loop: `argstr` is further on in the line, and
`fewArgs` looks at the rest, or a string is opened at the end of the line, and `argstr` is
behind the 0. -/
structure Round (line : List UInt8) (s : Parse) (few : Bool) (last : ParseState) (t : Parse) :
    Prop where
  forth : s.argstr < t.argstr
  length : t.argv.length ≤ MAX_ARGS_NUM
  place : (∃ l, At line t last l ∧ few = (decide (t.argv.length < MAX_ARGS_NUM) &&
      fewArgs l t.argv.length (line.drop t.argstr))) ∨
    (t.buf.length ≤ t.argstr ∧ few = false)

/-- The round of a quote that opens a string. -/
theorem At.round_quote (h : At line s last l) (hfew : s.argv.length < MAX_ARGS_NUM)
    (hrest : line.drop s.argstr = c :: cs) (hsep : l.separates c = false)
    (hnext : l.next c = opened) :
    Round line s (fewArgs l s.argv.length (line.drop s.argstr)) PS_STRING
      s.clear.advance.push.advance := by
  obtain ⟨-, hstarts⟩ := h.open_quote hnext
  have hargv : s.clear.advance.push.advance.argv.length = s.argv.length + 1 := by
    simp [Parse.clear, Parse.advance, Parse.push]
  have hline := fewArgs_next hsep s.argv.length cs
  rw [hstarts, hnext, Bool.toNat_true] at hline
  refine ⟨?_, hargv ▸ hfew, ?_⟩
  · show s.argstr < s.argstr + 2
    omega
  · rw [hrest, hline, hargv]
    cases cs with
    | nil =>
        right
        have hlen := congrArg List.length h.suffix
        rw [hrest, List.length_drop, List.cons_append, List.nil_append, List.length_cons,
          List.length_singleton] at hlen
        refine ⟨?_, Bool.and_false _⟩
        show (s.buf.set s.argstr 0).length ≤ s.argstr + 2
        rw [List.length_set]
        omega
    | cons d ds =>
        left
        have hrest' : line.drop s.clear.advance.push.advance.argstr = ds := by
          show line.drop (s.argstr + 2) = ds
          rw [← List.drop_drop, hrest]
          rfl
        -- the first character of the string is not looked at
        have hskip : fewArgs opened (s.argv.length + 1) (d :: ds) =
            (decide (s.argv.length + 1 < MAX_ARGS_NUM) && fewArgs quoted (s.argv.length + 1) ds) :=
          fewArgs_next rfl _ ds
        refine ⟨quoted, h.in_string hrest hnext, ?_⟩
        rw [hrest', hskip, ← Bool.and_assoc, Bool.and_self]

/-- The round of any other character. -/
theorem At.round_step (h : At line s last l) (hfew : s.argv.length < MAX_ARGS_NUM)
    (hrest : line.drop s.argstr = c :: cs) (hsep : l.separates c = false)
    (hnext : l.next c ≠ opened) :
    Round line s (fewArgs l s.argv.length (line.drop s.argstr)) (parseChar c last s).1
      (parseChar c last s).2.advance := by
  obtain ⟨hstep, hargstr, hargv⟩ := h.step hrest hsep hnext
  have hargv' : (parseChar c last s).2.advance.argv.length =
      s.argv.length + (l.starts c).toNat := hargv
  have hforth : (parseChar c last s).2.advance.argstr = s.argstr + 1 := congrArg (· + 1) hargstr
  have hrest' : line.drop (parseChar c last s).2.advance.argstr = cs := by
    rw [hforth, ← List.drop_drop, hrest]
    rfl
  have hone := Bool.toNat_le (l.starts c)
  refine ⟨by omega, by omega, Or.inl ⟨_, hstep, ?_⟩⟩
  rw [hargv', hrest', hrest, fewArgs_next hsep]

/-! ### The loop of `parse_args` -/

/-- The loop ends at the 0, in a full array and at a character that ends a command. -/
theorem parseLoop_cases (fuel : Nat) (h0 : 0 ∉ line) (h : At line s last l)
    (hfew : s.argv.length < MAX_ARGS_NUM) :
    (line.drop s.argstr = [] ∧ parseLoop (fuel + 1) last s = some s) ∨
    (∃ cs, line.drop s.argstr = SEMICOLON :: cs ∧ l.separates SEMICOLON = true ∧
      parseLoop (fuel + 1) last s = some s) ∨
    ∃ last' t, Round line s (fewArgs l s.argv.length (line.drop s.argstr)) last' t ∧
      parseLoop (fuel + 1) last s = parseLoop fuel last' t := by
  cases hrest : line.drop s.argstr with
  | nil =>
      left
      rw [parseLoop, h.read_nil hrest, Option.bind_some, if_neg fun hc => hc.1 rfl]
      exact ⟨rfl, rfl⟩
  | cons c cs =>
      right
      have hc : c ≠ 0 := ne_zero_of_drop h0 hrest
      rw [parseLoop, h.read_cons hrest, Option.bind_some, if_pos ⟨hc, hfew⟩]
      cases hsep : l.separates c with
      | true =>
          left
          have hbreak := h.break_iff.mpr hsep
          rw [if_pos hbreak]
          exact ⟨cs, by rw [hbreak.1], hbreak.1 ▸ hsep, rfl⟩
      | false =>
          right
          rw [if_neg (mt h.break_iff.mp (Bool.eq_false_iff.mp hsep)), ← hrest]
          by_cases hnext : l.next c = opened
          · rw [(h.open_quote hnext).1]
            exact ⟨_, _, h.round_quote hfew hrest hsep hnext, rfl⟩
          · exact ⟨_, _, h.round_step hfew hrest hsep hnext, rfl⟩

/-- A full array ends the loop. -/
theorem parseLoop_full (hfull : ¬ s.argv.length < MAX_ARGS_NUM)
    (hrun : parseLoop fuel last s = some t) : t = s := by
  cases fuel with
  | zero => cases hrun
  | succ fuel =>
      rw [parseLoop] at hrun
      obtain ⟨c, -, hrun⟩ := Option.bind_eq_some_iff.mp hrun
      rw [if_neg fun h => hfull h.2] at hrun
      exact (Option.some.inj hrun).symm

/-- Behind the 0 nothing can be read. -/
theorem parseLoop_behind (hbehind : s.buf.length ≤ s.argstr) : parseLoop fuel last s = none := by
  cases fuel with
  | zero => rfl
  | succ fuel => rw [parseLoop, List.getElem?_eq_none hbehind, Option.bind_none]

/-- The loop has ended with `argstr` at the end of a command, in an array that is not full.
`few` is what `fewArgs` says from where the loop began: it says the same of the rest. -/
structure CommandEnds (line : List UInt8) (t : Parse) (few : Bool) : Prop where
  notFull : t.argv.length < MAX_ARGS_NUM
  place : ∃ last l, At line t last l
  ends : (line.drop t.argstr = [] ∧ few = true) ∨
    ∃ tail, line.drop t.argstr = SEMICOLON :: tail ∧
      (lexAfter line t.argstr).separates SEMICOLON = true ∧ few = fewArgs blank 0 tail

/-- However the loop ends, the array is full or a command ends. -/
theorem parseLoop_fewArgs (h0 : 0 ∉ line) (h : At line s last l)
    (hfew : s.argv.length < MAX_ARGS_NUM) (hrun : parseLoop fuel last s = some t) :
    s.argstr ≤ t.argstr ∧ (t.argv.length = MAX_ARGS_NUM ∨
      CommandEnds line t (fewArgs l s.argv.length (line.drop s.argstr))) := by
  induction fuel generalizing s last l with
  | zero => cases hrun
  | succ fuel ih =>
      rcases parseLoop_cases fuel h0 h hfew with
        ⟨hnil, hend⟩ | ⟨tail, hsemi, hsep, hend⟩ | ⟨last', s', hround, hnext⟩
      · obtain rfl : s = t := Option.some.inj (hend.symm.trans hrun)
        refine ⟨Nat.le_refl _, Or.inr ⟨hfew, ⟨last, l, h⟩, Or.inl ⟨hnil, ?_⟩⟩⟩
        rw [hnil, fewArgs, decide_eq_true h.ne_opened]
      · obtain rfl : s = t := Option.some.inj (hend.symm.trans hrun)
        refine ⟨Nat.le_refl _, Or.inr ⟨hfew, ⟨last, l, h⟩, Or.inr ⟨tail, hsemi, ?_, ?_⟩⟩⟩
        · rw [h.lex, hsep]
        · rw [hsemi, fewArgs, hsep, if_pos rfl]
      · rw [hnext] at hrun
        have hforth := hround.forth
        rcases hround.place with ⟨l', hat, heq⟩ | ⟨hbehind, -⟩
        · by_cases hfull : s'.argv.length < MAX_ARGS_NUM
          · rw [heq, decide_eq_true hfull, Bool.true_and]
            obtain ⟨hle, hends⟩ := ih hat hfull hrun
            exact ⟨by omega, hends⟩
          · have hlength := hround.length
            obtain rfl := parseLoop_full hfull hrun
            exact ⟨by omega, Or.inl (by omega)⟩
        · rw [parseLoop_behind hbehind] at hrun
          cases hrun

/-- The loop ends within the line if `fewArgs` says so. -/
theorem parseLoop_returns (h0 : 0 ∉ line) (h : At line s last l)
    (hfew : s.argv.length < MAX_ARGS_NUM)
    (hline : fewArgs l s.argv.length (line.drop s.argstr) = true)
    (hfuel : line.length - s.argstr < fuel) :
    ∃ t, parseLoop fuel last s = some t ∧ t.argv.length < MAX_ARGS_NUM := by
  induction fuel generalizing s last l with
  | zero => exact absurd hfuel (Nat.not_lt_zero _)
  | succ fuel ih =>
      rcases parseLoop_cases fuel h0 h hfew with
        ⟨-, hend⟩ | ⟨-, -, -, hend⟩ | ⟨last', s', hround, hnext⟩
      · exact ⟨s, hend, hfew⟩
      · exact ⟨s, hend, hfew⟩
      · rw [hnext]
        have hforth := hround.forth
        rcases hround.place with ⟨l', hat, heq⟩ | ⟨-, heq⟩
        · rw [hline, Eq.comm, Bool.and_eq_true, decide_eq_true_eq] at heq
          have hle := hat.le
          exact ih hat heq.1 heq.2 (by omega)
        · rw [hline] at heq
          cases heq

/-! ### `parse_args` -/

variable {buf : List UInt8} {stacked : ParseState} {r : ParseArgs} {calls : List CmdCall}
  {rounds : Nat}

/-- `buf` points to the start of a command or to the end of the line, and the line is as it
was from there on. -/
structure CommandAt (line buf : List UInt8) (p : Nat) : Prop where
  suffix : buf.drop p = line.drop p ++ [0]
  le : p ≤ line.length
  place : line.drop p = [] ∨ (lexAfter line p = blank ∧ IsCommandStart line p)

theorem CommandAt.at_start (h : CommandAt line buf p) (hrest : line.drop p ≠ [])
    (stacked : ParseState) :
    At line ⟨buf, p, [], stacked⟩ PS_WHITESPACE blank :=
  ⟨h.suffix, h.le, (h.place.resolve_left hrest).1, rfl⟩

/-- The end of a command, with the character that ends it overwritten. -/
theorem CommandEnds.next_command {few : Bool} (h : CommandEnds line t few)
    (hargs : t.buf[t.argstr]? = some c) :
    CommandAt line (if c = SEMICOLON then t.clear.advance else t).buf
        (if c = SEMICOLON then t.clear.advance else t).argstr ∧
      few = fewArgs blank 0
        (line.drop (if c = SEMICOLON then t.clear.advance else t).argstr) ∧
      (line.drop t.argstr = [] ∨
        t.argstr < (if c = SEMICOLON then t.clear.advance else t).argstr) := by
  obtain ⟨last, l, hat⟩ := h.place
  rcases h.ends with ⟨hnil, hfew⟩ | ⟨tail, hsemi, hsep, hfew⟩
  · obtain rfl : c = 0 := Option.some.inj (hargs.symm.trans (hat.read_nil hnil))
    rw [if_neg (by decide), hnil, hfew]
    exact ⟨⟨hat.suffix, hat.le, Or.inl hnil⟩, rfl, Or.inl rfl⟩
  · obtain rfl : c = SEMICOLON := Option.some.inj (hargs.symm.trans (hat.read_cons hsemi))
    rw [if_pos rfl]
    have hrest : line.drop (t.argstr + 1) = tail := by
      rw [← List.drop_drop, hsemi]
      rfl
    have hchar : (line)[t.argstr]? = some SEMICOLON := by
      rw [← List.head?_drop, hsemi, List.head?_cons]
    have hlen := congrArg List.length hsemi
    rw [List.length_drop, List.length_cons] at hlen
    refine ⟨⟨?_, ?_, Or.inr ⟨?_, Or.inr ⟨t.argstr, SEMICOLON, rfl, hchar, hsep⟩⟩⟩, ?_,
      Or.inr (Nat.lt_succ_self _)⟩
    · show (t.buf.set t.argstr 0).drop (t.argstr + 1) = line.drop (t.argstr + 1) ++ [0]
      rw [List.drop_set_of_lt (Nat.lt_succ_self _)]
      exact hat.suffix_succ hsemi
    · show t.argstr + 1 ≤ line.length
      omega
    · show lexAfter line (t.argstr + 1) = blank
      rw [lexAfter_succ hsemi]
      generalize lexAfter line t.argstr = l' at hsep
      cases l' with
      | blank => rfl
      | word => rfl
      | opened => cases hsep
      | quoted => cases hsep
      | escaped inWord => cases hsep
    · rw [hfew, ← hrest]
      rfl

/-- What `parse_args` leaves behind, whenever it returns: it has stored behind the array, or
the next command is further on in the line. -/
theorem parseArgs_spec (h0 : 0 ∉ line) (h : CommandAt line buf p) (hrest : line.drop p ≠ [])
    (hrun : parseArgs fuel buf p stacked = some r) :
    MAX_ARGS_NUM < r.argv.length ∨
      (r.argv.length ≤ MAX_ARGS_NUM ∧ p < r.resid ∧ CommandAt line r.buf r.resid ∧
        fewArgs blank 0 (line.drop p) = fewArgs blank 0 (line.drop r.resid)) := by
  obtain ⟨t, hloop, hrun⟩ := Option.bind_eq_some_iff.mp hrun
  obtain ⟨c, hread, rfl⟩ := Option.map_eq_some_iff.mp hrun
  have hlength : (t.argv.map some ++ [none]).length = t.argv.length + 1 := by
    rw [List.length_append, List.length_map, List.length_singleton]
  obtain ⟨hle, hfull | hends⟩ := parseLoop_fewArgs h0 (h.at_start hrest stacked)
    (Nat.zero_lt_succ 7) hloop
  · left
    show MAX_ARGS_NUM < (t.argv.map some ++ [none]).length
    omega
  · right
    obtain ⟨hnext, hfew, hforth⟩ := hends.next_command hread
    refine ⟨?_, ?_, hnext, hfew⟩
    · have hnotFull := hends.notFull
      show (t.argv.map some ++ [none]).length ≤ MAX_ARGS_NUM
      omega
    · show p < (if c = SEMICOLON then t.clear.advance else t).argstr
      rcases hforth with hnil | hlt
      · -- the loop has gone over all of the line
        have hend := List.drop_eq_nil_iff.mp hnil
        have hlt : p < line.length := by
          by_contra hge
          exact hrest (List.drop_eq_nil_iff.mpr (by omega))
        have hmono : t.argstr ≤ (if c = SEMICOLON then t.clear.advance else t).argstr := by
          split
          · exact Nat.le_succ _
          · exact Nat.le_refl _
        omega
      · exact Nat.lt_of_le_of_lt hle hlt

/-- `parse_args` returns within the array if `fewArgs` says so. -/
theorem parseArgs_returns (stacked : ParseState) (h0 : 0 ∉ line) (h : CommandAt line buf p)
    (hrest : line.drop p ≠ []) (hline : fewArgs blank 0 (line.drop p) = true) (hfuel : line.length < fuel) :
    ∃ r, parseArgs fuel buf p stacked = some r ∧ r.argv.length ≤ MAX_ARGS_NUM := by
  have hat := h.at_start hrest stacked
  obtain ⟨t, hloop, hfew⟩ := parseLoop_returns h0 hat (Nat.zero_lt_succ 7) hline
    (Nat.lt_of_le_of_lt (Nat.sub_le _ _) hfuel)
  obtain ⟨-, hfull | hends⟩ := parseLoop_fewArgs h0 hat (Nat.zero_lt_succ 7) hloop
  · omega
  · obtain ⟨last, l, hat⟩ := hends.place
    have hread : ∃ c, t.buf[t.argstr]? = some c := by
      cases hnil : line.drop t.argstr with
      | nil => exact ⟨0, hat.read_nil hnil⟩
      | cons c cs => exact ⟨c, hat.read_cons hnil⟩
    obtain ⟨c, hread⟩ := hread
    refine ⟨_, by rw [parseArgs, hloop, Option.bind_some, hread, Option.map_some], ?_⟩
    show (t.argv.map some ++ [none]).length ≤ MAX_ARGS_NUM
    rw [List.length_append, List.length_map, List.length_singleton]
    omega

/-! ### `acoral_ash_cmd_exe` -/

/-- If the loop returns and has not stored behind the array, then `fewArgs` says so, and the
line has been cut at the starts of commands. -/
theorem cmdExeLoop_fewArgs (h0 : 0 ∉ line) (h : CommandAt line buf p)
    (hrun : cmdExeLoop fuel rounds buf p stacked = some calls)
    (hcalls : ∀ call ∈ calls, call.argv.length ≤ MAX_ARGS_NUM) :
    fewArgs blank 0 (line.drop p) = true := by
  induction rounds generalizing buf p stacked calls with
  | zero => cases hrun
  | succ rounds ih =>
      cases hrest : line.drop p with
      | nil => rfl
      | cons c cs =>
          have hne : line.drop p ≠ [] := by simp [hrest]
          have hc : c ≠ 0 := ne_zero_of_drop h0 hrest
          rw [cmdExeLoop, (h.at_start hne stacked).read_cons hrest, Option.bind_some,
            if_neg hc] at hrun
          obtain ⟨r, hargs, hrun⟩ := Option.bind_eq_some_iff.mp hrun
          obtain ⟨rest, hloop, rfl⟩ := Option.map_eq_some_iff.mp hrun
          have hfirst := hcalls _ List.mem_cons_self
          rcases parseArgs_spec h0 h hne hargs with hfull | ⟨-, -, hnext, heq⟩
          · exact absurd hfirst (Nat.not_le.mpr hfull)
          · rw [← hrest, heq]
            exact ih hnext hloop fun call hcall => hcalls call (List.mem_cons_of_mem _ hcall)

/-- If `fewArgs` says so, the loop returns, and it has neither stored behind the array nor cut
the line elsewhere. -/
theorem cmdExeLoop_returns (stacked : ParseState) (h0 : 0 ∉ line) (h : CommandAt line buf p)
    (hline : fewArgs blank 0 (line.drop p) = true) (hfuel : line.length < fuel)
    (hrounds : line.length - p < rounds) :
    ∃ calls, cmdExeLoop fuel rounds buf p stacked = some calls ∧
      ∀ call ∈ calls, call.argv.length ≤ MAX_ARGS_NUM ∧ IsCommandStart line call.start := by
  induction rounds generalizing buf p stacked with
  | zero => exact absurd hrounds (Nat.not_lt_zero _)
  | succ rounds ih =>
      cases hrest : line.drop p with
      | nil =>
          have hread : buf[p]? = some 0 := by
            rw [← List.head?_drop, h.suffix, hrest, List.nil_append, List.head?_cons]
          exact ⟨[], by rw [cmdExeLoop, hread, Option.bind_some, if_pos rfl], by simp⟩
      | cons c cs =>
          have hne : line.drop p ≠ [] := by simp [hrest]
          have hc : c ≠ 0 := ne_zero_of_drop h0 hrest
          have hread := (h.at_start hne stacked).read_cons hrest
          obtain ⟨r, hargs, hlength⟩ := parseArgs_returns stacked h0 h hne hline hfuel
          rcases parseArgs_spec h0 h hne hargs with hfull | ⟨-, hforth, hnext, heq⟩
          · exact absurd hlength (Nat.not_le.mpr hfull)
          · have hle := hnext.le
            obtain ⟨rest, hrun, hcalls⟩ := @ih r.resid r.buf r.stacked hnext (heq ▸ hline) (by omega)
            refine ⟨⟨p, r.argv, r.argc⟩ :: rest, ?_, ?_⟩
            · rw [cmdExeLoop, hread, Option.bind_some, if_neg hc, hargs, Option.bind_some, hrun,
                Option.map_some]
            · rw [List.forall_mem_cons]
              exact ⟨⟨hlength, (h.place.resolve_left hne).2⟩, hcalls⟩

end ACoral
