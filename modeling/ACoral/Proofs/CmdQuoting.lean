import ACoral.Kernel.Cmd

/-!
# `ACoral.Proofs.CmdQuoting`: arguments that are written and parsed again

`Rendered args line` says that the line shows the arguments with blanks in between, each of
them bare or between quotes. `parse_args` is to give them back (`RoundTrips`).

It does not for an empty argument. That has to be written as two quotes, and behind the
first one the loop goes over the second one without looking at it. So the argument that
comes out begins with a quote, which no argument has. All the other ones come out right
(`roundTrips_iff`).

* `parseLoop_keeps`: what is behind `argstr` does not change any more.
* `parseLoop_written`, `parseLoop_blanks`: the rounds of one argument and of blanks.
* `parseLoop_rendered`: those of a line without empty arguments.
* `parseLoop_empty`: what comes out of a line with an empty one.
-/

set_option autoImplicit false

namespace ACoral

open ParseState

variable {s t : Parse} {last : ParseState} {fuel : Nat} {c : UInt8}
  {a w done rest line : List UInt8} {args : List (List UInt8)} {argv : List Nat}
  {st : ParseState}

/-! ### Lines that show arguments -/

/-- A blank between arguments. -/
def IsBlank (c : UInt8) : Prop := c = SPACE ∨ c = TAB

/-- A character of an argument as such. -/
def IsPlain (c : UInt8) : Prop := c ≠ 0 ∧ c ≠ QUOTE ∧ c ≠ BACKSLASH

/-- The two ways to write an argument. -/
inductive Written : (arg text : List UInt8) → Prop
  | bare (a : List UInt8) : a ≠ [] → (∀ c ∈ a, ¬ IsBlank c ∧ c ≠ SEMICOLON) → Written a a
  | quoted (a : List UInt8) : Written a (QUOTE :: (a ++ [QUOTE]))

/-- The line shows the arguments. -/
inductive Rendered : (args : List (List UInt8)) → (line : List UInt8) → Prop
  | nil : Rendered [] []
  | single {a w : List UInt8} : Written a w → Rendered [a] w
  | cons {a b w line : List UInt8} {args : List (List UInt8)} (blanks : List UInt8) :
      Written a w → blanks ≠ [] → (∀ c ∈ blanks, IsBlank c) → Rendered (b :: args) line →
      Rendered (a :: b :: args) (w ++ (blanks ++ line))

/-- `parse_args` on the line returns, and the strings in `argv` are the arguments. -/
def RoundTrips (args : List (List UInt8)) (line : List UInt8) (stacked : ParseState) : Prop :=
  ∃ fuel r, parseArgs fuel (line ++ [0]) 0 stacked = some r ∧ r.strings = args

/-! ### What the loop keeps -/

/-- `argstr` moves on, and neither the pointers nor the bytes behind it change. -/
structure ParseKeeps (s t : Parse) : Prop where
  argstr : s.argstr ≤ t.argstr
  argv : s.argv <+: t.argv
  buf : t.buf.take s.argstr = s.buf.take s.argstr

theorem ParseKeeps.refl (s : Parse) : ParseKeeps s s := ⟨Nat.le_refl _, List.prefix_refl _, rfl⟩

theorem ParseKeeps.trans {u : Parse} (h : ParseKeeps s t) (h' : ParseKeeps t u) : ParseKeeps s u where
  argstr := Nat.le_trans h.argstr h'.argstr
  argv := h.argv.trans h'.argv
  buf := by
    rw [← h.buf, ← Nat.min_eq_left h.argstr, ← List.take_take, ← List.take_take, h'.buf]

theorem parseKeeps_clear (s : Parse) : ParseKeeps s s.clear :=
  ⟨Nat.le_refl _, List.prefix_refl _, List.take_set_of_le (Nat.le_refl _)⟩

theorem parseKeeps_advance (s : Parse) : ParseKeeps s s.advance :=
  ⟨Nat.le_succ _, List.prefix_refl _, rfl⟩

theorem parseKeeps_push (s : Parse) : ParseKeeps s s.push :=
  ⟨Nat.le_refl _, List.prefix_append _ _, rfl⟩

theorem parseKeeps_parseChar (c : UInt8) (last : ParseState) (s : Parse) :
    ParseKeeps s (parseChar c last s).2 := by
  unfold parseChar
  split
  · exact ParseKeeps.refl s
  · split
    · split
      · exact parseKeeps_clear s
      · exact ParseKeeps.refl s
    · split
      · exact parseKeeps_clear s
      · split
        · exact ((parseKeeps_clear s).trans (parseKeeps_advance _)).trans (parseKeeps_push _)
        · split
          · exact ⟨Nat.le_refl _, List.prefix_refl _, rfl⟩
          · split
            · exact parseKeeps_push s
            · exact ParseKeeps.refl s

theorem parseLoop_keeps (hrun : parseLoop fuel last s = some t) : ParseKeeps s t := by
  induction fuel generalizing last s with
  | zero => cases hrun
  | succ fuel ih =>
      rw [parseLoop] at hrun
      obtain ⟨c, -, hrun⟩ := Option.bind_eq_some_iff.mp hrun
      split at hrun
      · split at hrun
        · exact Option.some.inj hrun ▸ ParseKeeps.refl s
        · exact ((parseKeeps_parseChar c last s).trans (parseKeeps_advance _)).trans (ih hrun)
      · exact Option.some.inj hrun ▸ ParseKeeps.refl s

/-- More rounds do not change the result. -/
theorem parseLoop_mono (hrun : parseLoop fuel last s = some t) (n : Nat) :
    parseLoop (fuel + n) last s = some t := by
  induction fuel generalizing last s with
  | zero => cases hrun
  | succ fuel ih =>
      rw [Nat.succ_add, parseLoop]
      rw [parseLoop] at hrun
      obtain ⟨c, hread, hrun⟩ := Option.bind_eq_some_iff.mp hrun
      rw [hread, Option.bind_some]
      split at hrun
      · rename_i hgo
        rw [if_pos hgo]
        split at hrun
        · rename_i hbreak
          rw [if_pos hbreak, hrun]
        · rename_i hbreak
          rw [if_neg hbreak]
          exact ih hrun
      · rename_i hend
        rw [if_neg hend, hrun]

/-! ### The rounds of one argument -/

/-- The loop with `done` behind it and `rest` before it. -/
def between (done rest : List UInt8) (argv : List Nat) (st : ParseState) : Parse :=
  ⟨done ++ rest, done.length, argv, st⟩

theorem between_clear : (between done (c :: rest) argv st).clear.advance =
    between (done ++ [0]) rest argv st := by
  simp [between, Parse.clear, Parse.advance, List.set_append]

theorem between_advance : (between done (c :: rest) argv st).advance =
    between (done ++ [c]) rest argv st := by
  simp [between, Parse.advance]

/-- One round. -/
theorem parseLoop_between (hc : c ≠ 0) (hargv : argv.length < MAX_ARGS_NUM)
    (hbreak : ¬ (c = SEMICOLON ∧ last ≠ PS_STRING ∧ last ≠ PS_ESCAPE)) :
    parseLoop (fuel + 1) last (between done (c :: rest) argv st) =
      parseLoop fuel (parseChar c last (between done (c :: rest) argv st)).1
        (parseChar c last (between done (c :: rest) argv st)).2.advance := by
  have hread : (between done (c :: rest) argv st).buf[done.length]? = some c := by
    simp [between]
  rw [parseLoop]
  rw [show (between done (c :: rest) argv st).argstr = done.length from rfl, hread,
    Option.bind_some, if_pos ⟨hc, hargv⟩, if_neg hbreak]

/-- A blank is overwritten. -/
theorem parseLoop_blank (hlast : last = PS_WHITESPACE ∨ last = PS_TOKEN) (hc : IsBlank c)
    (hargv : argv.length < MAX_ARGS_NUM) :
    parseLoop (fuel + 1) last (between done (c :: rest) argv st) =
      parseLoop fuel PS_WHITESPACE (between (done ++ [0]) rest argv st) := by
  have hne : c ≠ 0 ∧ c ≠ SEMICOLON := by
    rcases hc with rfl | rfl <;> decide
  rw [parseLoop_between hne.1 hargv fun h => hne.2 h.1]
  have hchar : parseChar c last (between done (c :: rest) argv st) =
      (PS_WHITESPACE, (between done (c :: rest) argv st).clear) := by
    rcases hlast with rfl | rfl <;> exact if_pos hc
  rw [hchar, between_clear]

/-- Blanks are overwritten. -/
theorem parseLoop_blanks {blanks : List UInt8} (hne : blanks ≠ [])
    (hblanks : ∀ c ∈ blanks, IsBlank c) (hlast : last = PS_WHITESPACE ∨ last = PS_TOKEN)
    (hargv : argv.length < MAX_ARGS_NUM) :
    parseLoop (fuel + blanks.length) last (between done (blanks ++ rest) argv st) =
      parseLoop fuel PS_WHITESPACE
        (between (done ++ List.replicate blanks.length 0) rest argv st) := by
  induction blanks generalizing last done with
  | nil => exact absurd rfl hne
  | cons c blanks ih =>
      obtain ⟨hc, hblanks⟩ := List.forall_mem_cons.mp hblanks
      rw [List.length_cons, ← Nat.add_assoc, List.cons_append, parseLoop_blank hlast hc hargv]
      cases blanks with
      | nil => rfl
      | cons d blanks =>
          rw [ih (List.cons_ne_nil d blanks) hblanks (Or.inl rfl), List.append_assoc]
          rfl

/-- The further characters of a bare argument. -/
theorem parseLoop_token (hplain : ∀ c ∈ a, IsPlain c)
    (hbare : ∀ c ∈ a, ¬ IsBlank c ∧ c ≠ SEMICOLON) (hargv : argv.length < MAX_ARGS_NUM) :
    parseLoop (fuel + a.length) PS_TOKEN (between done (a ++ rest) argv st) =
      parseLoop fuel PS_TOKEN (between (done ++ a) rest argv st) := by
  induction a generalizing done with
  | nil => simp
  | cons c a ih =>
      obtain ⟨hc, hplain⟩ := List.forall_mem_cons.mp hplain
      obtain ⟨hc', hbare⟩ := List.forall_mem_cons.mp hbare
      have hchar : parseChar c PS_TOKEN (between done (c :: (a ++ rest)) argv st) =
          (PS_TOKEN, between done (c :: (a ++ rest)) argv st) := by
        have hblank : ¬ (c = SPACE ∨ c = TAB) := hc'.1
        simp [parseChar, hblank, hc.2]
      rw [List.length_cons, ← Nat.add_assoc, List.cons_append,
        parseLoop_between hc.1 hargv fun h => hc'.2 h.1, hchar, between_advance, ih hplain hbare,
        List.append_assoc]
      rfl

/-- The characters between quotes. -/
theorem parseLoop_string (hplain : ∀ c ∈ a, IsPlain c) (hargv : argv.length < MAX_ARGS_NUM) :
    parseLoop (fuel + a.length) PS_STRING (between done (a ++ rest) argv st) =
      parseLoop fuel PS_STRING (between (done ++ a) rest argv st) := by
  induction a generalizing done with
  | nil => simp
  | cons c a ih =>
      obtain ⟨hc, hplain⟩ := List.forall_mem_cons.mp hplain
      have hchar : parseChar c PS_STRING (between done (c :: (a ++ rest)) argv st) =
          (PS_STRING, between done (c :: (a ++ rest)) argv st) := by
        simp [parseChar, hc.2]
      rw [List.length_cons, ← Nat.add_assoc, List.cons_append,
        parseLoop_between hc.1 hargv fun h => h.2.1 rfl, hchar, between_advance, ih hplain,
        List.append_assoc]
      rfl

/-- A quote outside of strings. The character behind it is not looked at. -/
theorem parseLoop_quote {d : UInt8} (hargv : argv.length < MAX_ARGS_NUM) :
    parseLoop (fuel + 1) PS_WHITESPACE (between done (QUOTE :: d :: rest) argv st) =
      parseLoop fuel PS_STRING
        (between (done ++ [0, d]) rest (argv ++ [done.length + 1]) st) := by
  rw [parseLoop_between (by decide) hargv (by decide)]
  have hchar : parseChar QUOTE PS_WHITESPACE (between done (QUOTE :: d :: rest) argv st) =
      (PS_STRING, (between done (QUOTE :: d :: rest) argv st).clear.advance.push) := rfl
  rw [hchar, between_clear]
  simp [between, Parse.advance, Parse.push]

/-- The quote that ends a string. -/
theorem parseLoop_unquote (hargv : argv.length < MAX_ARGS_NUM) :
    parseLoop (fuel + 1) PS_STRING (between done (QUOTE :: rest) argv st) =
      parseLoop fuel PS_WHITESPACE (between (done ++ [0]) rest argv st) := by
  rw [parseLoop_between (by decide) hargv (by decide)]
  have hchar : parseChar QUOTE PS_STRING (between done (QUOTE :: rest) argv st) =
      (PS_WHITESPACE, (between done (QUOTE :: rest) argv st).clear) := rfl
  rw [hchar, between_clear]

theorem strAt_append {more : List UInt8} (h0 : 0 ∉ a) :
    strAt (done ++ (a ++ 0 :: more)) done.length = a := by
  rw [strAt, List.drop_left, List.takeWhile_append_of_pos, List.takeWhile_cons_of_neg (by simp),
    List.append_nil]
  intro c hc
  exact decide_eq_true fun hzero => h0 (hzero ▸ hc)

/-- The rounds of a bare argument. -/
theorem parseLoop_bare (hne : a ≠ []) (hplain : ∀ c ∈ a, IsPlain c)
    (hbare : ∀ c ∈ a, ¬ IsBlank c ∧ c ≠ SEMICOLON) (hargv : argv.length + 1 < MAX_ARGS_NUM) :
    parseLoop (fuel + a.length) PS_WHITESPACE (between done (a ++ rest) argv st) =
      parseLoop fuel PS_TOKEN (between (done ++ a) rest (argv ++ [done.length]) st) := by
  cases a with
  | nil => exact absurd rfl hne
  | cons c a =>
      obtain ⟨hc, hplain⟩ := List.forall_mem_cons.mp hplain
      obtain ⟨hc', hbare⟩ := List.forall_mem_cons.mp hbare
      have hchar : parseChar c PS_WHITESPACE (between done (c :: (a ++ rest)) argv st) =
          (PS_TOKEN, (between done (c :: (a ++ rest)) argv st).push) := by
        have hblank : ¬ (c = SPACE ∨ c = TAB) := hc'.1
        simp [parseChar, hblank, hc.2]
      have hpush : (between done (c :: (a ++ rest)) argv st).push.advance =
          between (done ++ [c]) (a ++ rest) (argv ++ [done.length]) st := by
        simp [between, Parse.push, Parse.advance]
      rw [List.length_cons, ← Nat.add_assoc, List.cons_append,
        parseLoop_between hc.1 (by omega) fun h => hc'.2 h.1, hchar, hpush,
        parseLoop_token hplain hbare (by simpa using hargv), List.append_assoc]
      rfl

/-- The rounds of an argument between quotes. -/
theorem parseLoop_quoted (hne : a ≠ []) (hplain : ∀ c ∈ a, IsPlain c)
    (hargv : argv.length + 1 < MAX_ARGS_NUM) :
    parseLoop (fuel + 1 + a.length) PS_WHITESPACE
        (between done (QUOTE :: (a ++ [QUOTE]) ++ rest) argv st) =
      parseLoop fuel PS_WHITESPACE
        (between (done ++ (0 :: (a ++ [0]))) rest (argv ++ [done.length + 1]) st) := by
  cases a with
  | nil => exact absurd rfl hne
  | cons d a =>
      have hplain := (List.forall_mem_cons.mp hplain).2
      have hargv' : (argv ++ [done.length + 1]).length < MAX_ARGS_NUM := by simpa using hargv
      have htext : QUOTE :: (d :: a ++ [QUOTE]) ++ rest = QUOTE :: d :: (a ++ QUOTE :: rest) := by
        simp
      rw [htext, List.length_cons, ← Nat.add_assoc, parseLoop_quote (by omega),
        parseLoop_string hplain hargv', parseLoop_unquote hargv']
      simp

/-- The rounds of an argument that is not empty, and the string that comes out. -/
theorem parseLoop_written (done rest : List UInt8) (st : ParseState) (h : Written a w)
    (hne : a ≠ []) (hplain : ∀ c ∈ a, IsPlain c) (hargv : argv.length + 1 < MAX_ARGS_NUM) :
    ∃ k last text q, (last = PS_WHITESPACE ∨ last = PS_TOKEN) ∧
      (∀ fuel, parseLoop (fuel + k) PS_WHITESPACE (between done (w ++ rest) argv st) =
        parseLoop fuel last (between (done ++ text) rest (argv ++ [q]) st)) ∧
      ∀ more, strAt (done ++ text ++ 0 :: more) q = a := by
  have h0 : 0 ∉ a := fun hmem => (hplain 0 hmem).1 rfl
  cases h with
  | bare _ hbare =>
      refine ⟨a.length, PS_TOKEN, a, done.length, Or.inr rfl, ?_, ?_⟩
      · intro fuel
        exact parseLoop_bare hne hplain hbare hargv
      · intro more
        rw [List.append_assoc, strAt_append h0]
  | quoted =>
      refine ⟨1 + a.length, PS_WHITESPACE, 0 :: (a ++ [0]), done.length + 1, Or.inl rfl, ?_, ?_⟩
      · intro fuel
        rw [← Nat.add_assoc]
        exact parseLoop_quoted hne hplain hargv
      · intro more
        have hsplit : done ++ (0 :: (a ++ [0])) ++ 0 :: more = done ++ [0] ++ (a ++ 0 :: 0 :: more) := by
          simp
        have hlength : done.length + 1 = (done ++ [0]).length := by simp
        rw [hsplit, hlength, strAt_append h0]

/-! ### The whole line -/

/-- A line without empty arguments is gone over to its end, and each argument comes out. -/
theorem parseLoop_rendered (h : Rendered args line) (hplain : ∀ a ∈ args, ∀ c ∈ a, IsPlain c)
    (hne : [] ∉ args) (hargv : argv.length + args.length < MAX_ARGS_NUM) :
    ∃ k text ptrs, (∀ fuel, parseLoop (fuel + k + 1) PS_WHITESPACE
        (between done (line ++ [0]) argv st) = some (between (done ++ text) [0] (argv ++ ptrs) st)) ∧
      ptrs.map (strAt (done ++ text ++ [0])) = args := by
  have hend : ∀ {fuel last done argv}, parseLoop (fuel + 1) last (between done [0] argv st) =
      some (between done [0] argv st) := by
    intro fuel last done argv
    have hread : (between done [0] argv st).buf[(between done [0] argv st).argstr]? = some 0 := by
      simp [between]
    rw [parseLoop, hread, Option.bind_some, if_neg fun hc => hc.1 rfl]
  induction h generalizing done argv with
  | nil => exact ⟨0, [], [], by simpa using fun fuel => hend, rfl⟩
  | single hw =>
      obtain ⟨hplain, -⟩ := List.forall_mem_cons.mp hplain
      obtain ⟨k, last, text, q, -, hrun, hstr⟩ := parseLoop_written done [0] st hw
        (fun h => hne (h ▸ List.mem_cons_self)) hplain hargv
      refine ⟨k, text, [q], ?_, by rw [List.map_singleton, hstr []]⟩
      intro fuel
      rw [Nat.add_right_comm, hrun, hend]
  | @cons a b w line args blanks hw hblanks hblank hline ih =>
      obtain ⟨hplain, hplains⟩ := List.forall_mem_cons.mp hplain
      obtain ⟨hne, hnes⟩ := not_or.mp (mt List.mem_cons.mpr hne)
      have hlength : argv.length + (args.length + 1 + 1) < MAX_ARGS_NUM := hargv
      obtain ⟨k, last, text, q, hlast, hrun, hstr⟩ := parseLoop_written done
        (blanks ++ (line ++ [0])) st hw (Ne.symm hne) hplain
        (show argv.length + 1 < MAX_ARGS_NUM by omega)
      have hargv' : (argv ++ [q]).length + (b :: args).length < MAX_ARGS_NUM := by
        rw [List.length_append, List.length_singleton, List.length_cons]
        omega
      have hblanks' : ∀ fuel, parseLoop (fuel + blanks.length) last
          (between (done ++ text) (blanks ++ (line ++ [0])) (argv ++ [q]) st) =
          parseLoop fuel PS_WHITESPACE (between (done ++ text ++ List.replicate blanks.length 0)
            (line ++ [0]) (argv ++ [q]) st) := by
        intro fuel
        exact parseLoop_blanks hblanks hblank hlast (Nat.lt_of_le_of_lt (Nat.le_add_right _ _) hargv')
      obtain ⟨k', text', ptrs, hrun', hstrs⟩ := @ih
        (done ++ text ++ List.replicate blanks.length 0) _ hplains hnes hargv'
      refine ⟨k' + blanks.length + k, text ++ (List.replicate blanks.length 0 ++ text'), q :: ptrs,
        ?_, ?_⟩
      · intro fuel
        have hfuel : fuel + (k' + blanks.length + k) + 1 = fuel + k' + 1 + blanks.length + k := by
          omega
        have hline : w ++ (blanks ++ line) ++ [0] = w ++ (blanks ++ (line ++ [0])) := by
          simp only [List.append_assoc]
        rw [hfuel, hline, hrun, hblanks', hrun']
        simp only [List.append_assoc, List.singleton_append]
      · have hbuf : done ++ (text ++ (List.replicate blanks.length 0 ++ text')) ++ [0] =
            done ++ text ++ List.replicate blanks.length 0 ++ text' ++ [0] := by
          simp only [List.append_assoc]
        rw [List.map_cons, hbuf, hstrs]
        congr 1
        -- the first blank has become the 0 behind the argument
        cases blanks with
        | nil => exact absurd rfl hblanks
        | cons c blanks =>
            have hzero := hstr (List.replicate blanks.length 0 ++ text' ++ [0])
            rw [List.length_cons, List.replicate_succ]
            simpa only [List.append_assoc, List.cons_append] using hzero

/-- The pointer to an empty argument leads to its second quote. -/
theorem parseLoop_quotes (hargv : argv.length < MAX_ARGS_NUM)
    (hrun : parseLoop fuel PS_WHITESPACE (between done (QUOTE :: QUOTE :: rest) argv st) = some t) :
    ∃ q ptrs, t.argv = argv ++ q :: ptrs ∧
      ∀ buf, buf.take t.argstr = t.buf.take t.argstr → strAt buf q ≠ [] := by
  cases fuel with
  | zero => cases hrun
  | succ fuel =>
      rw [parseLoop_quote hargv] at hrun
      obtain ⟨hargstr, ⟨ptrs, hptrs⟩, htake⟩ := parseLoop_keeps hrun
      refine ⟨done.length + 1, ptrs, ?_, ?_⟩
      · rw [← hptrs]
        simp [between]
      · intro buf hbuf
        have hlength : (done ++ [0, QUOTE]).length ≤ t.argstr := hargstr
        have hfront : buf.take (done ++ [0, QUOTE]).length = done ++ [0, QUOTE] := by
          rw [← Nat.min_eq_left hlength, ← List.take_take, hbuf, List.take_take,
            Nat.min_eq_left hlength]
          exact htake.trans List.take_left
        have hsplit := List.take_append_drop (done ++ [0, QUOTE]).length buf
        rw [hfront] at hsplit
        generalize buf.drop (done ++ [0, QUOTE]).length = tail at hsplit
        have hbuf : buf = done ++ [0] ++ QUOTE :: tail := by
          rw [← hsplit, List.append_assoc, List.append_assoc]
          rfl
        have hquote : (done ++ [0]).length = done.length + 1 := by simp
        rw [strAt, hbuf, ← hquote, List.drop_left, List.takeWhile_cons_of_pos (by decide)]
        exact List.cons_ne_nil _ _

/-- Of a line with an empty argument, other strings come out, wherever the loop ends and
whatever is written from there on. -/
theorem parseLoop_empty (h : Rendered args line) (hplain : ∀ a ∈ args, ∀ c ∈ a, IsPlain c)
    (hempty : [] ∈ args) (hargv : argv.length + args.length < MAX_ARGS_NUM)
    (hrun : parseLoop fuel PS_WHITESPACE (between done (line ++ [0]) argv st) = some t) :
    ∃ ptrs, t.argv = argv ++ ptrs ∧
      ∀ buf, buf.take t.argstr = t.buf.take t.argstr → ptrs.map (strAt buf) ≠ args := by
  have hquotes : ∀ {w : List UInt8}, Written [] w → w = [QUOTE, QUOTE] := by
    intro w hw
    cases hw with
    | bare hne => exact absurd rfl hne
    | quoted => rfl
  induction h generalizing done argv with
  | nil => cases hempty
  | @single a w hw =>
      obtain rfl := List.mem_singleton.mp hempty
      rw [hquotes hw] at hrun
      obtain ⟨q, ptrs, hptrs, hstr⟩ := parseLoop_quotes (by omega) hrun
      refine ⟨q :: ptrs, hptrs, ?_⟩
      intro buf hbuf heq
      exact hstr buf hbuf (List.cons.inj heq).1
  | @cons a b w line args blanks hw hblanks hblank hline ih =>
      obtain ⟨hplain, hplains⟩ := List.forall_mem_cons.mp hplain
      have hlength : argv.length + (args.length + 1 + 1) < MAX_ARGS_NUM := hargv
      rw [show w ++ (blanks ++ line) ++ [0] = w ++ (blanks ++ (line ++ [0])) by
        simp only [List.append_assoc]] at hrun
      by_cases hne : a = []
      · subst hne
        rw [hquotes hw] at hrun
        obtain ⟨q, ptrs, hptrs, hstr⟩ := parseLoop_quotes (by omega) hrun
        refine ⟨q :: ptrs, hptrs, ?_⟩
        intro buf hbuf heq
        exact hstr buf hbuf (List.cons.inj heq).1
      · -- the argument comes out right, and the empty one is further behind
        obtain ⟨k, last, text, q, hlast, hwritten, -⟩ := parseLoop_written done
          (blanks ++ (line ++ [0])) st hw hne hplain
          (show argv.length + 1 < MAX_ARGS_NUM by omega)
        have hargv' : (argv ++ [q]).length + (b :: args).length < MAX_ARGS_NUM := by
          rw [List.length_append, List.length_singleton, List.length_cons]
          omega
        have hmore := parseLoop_mono hrun (blanks.length + k)
        rw [← Nat.add_assoc, hwritten, parseLoop_blanks hblanks hblank hlast
          (Nat.lt_of_le_of_lt (Nat.le_add_right _ _) hargv')] at hmore
        obtain ⟨ptrs, hptrs, hstrs⟩ := ih hplains
          ((List.mem_cons.mp hempty).resolve_left (Ne.symm hne)) hargv' hmore
        refine ⟨q :: ptrs, by rw [hptrs, List.append_assoc, List.singleton_append], ?_⟩
        intro buf hbuf heq
        exact hstrs buf hbuf (List.cons.inj heq).2

/-- `parse_args` gives the arguments back that a line shows if and only if none of them is
empty. -/
theorem roundTrips_iff (h : Rendered args line) (hplain : ∀ a ∈ args, ∀ c ∈ a, IsPlain c)
    (hlength : args.length < MAX_ARGS_NUM) (stacked : ParseState) :
    RoundTrips args line stacked ↔ [] ∉ args := by
  have hstart : Parse.mk (line ++ [0]) 0 [] stacked = between [] (line ++ [0]) [] stacked := rfl
  have hlength' : ([] : List Nat).length + args.length < MAX_ARGS_NUM := by simpa using hlength
  constructor
  · rintro ⟨fuel, r, hrun, hstrings⟩ hempty
    obtain ⟨t, hloop, hrun⟩ := Option.bind_eq_some_iff.mp hrun
    obtain ⟨c, -, rfl⟩ := Option.map_eq_some_iff.mp hrun
    obtain ⟨ptrs, hptrs, hstrs⟩ := parseLoop_empty h hplain hempty hlength' (hstart ▸ hloop)
    rw [List.nil_append] at hptrs
    refine hstrs (if c = SEMICOLON then t.clear.advance else t).buf ?_ ?_
    · split
      · exact (parseKeeps_clear t).buf
      · rfl
    · simpa [ParseArgs.strings, hptrs] using hstrings
  · intro hne
    obtain ⟨k, text, ptrs, hloop, hstrs⟩ := @parseLoop_rendered [] line args [] stacked h hplain
      hne hlength'
    refine ⟨0 + k + 1, ⟨text ++ [0], ptrs.map some ++ [none], ptrs.length, text.length, stacked⟩,
      ?_, ?_⟩
    · rw [parseArgs, hstart, hloop 0, Option.bind_some]
      simp [between, SEMICOLON]
    · simpa [ParseArgs.strings] using hstrs

/-- "ab", "c d" and "x" come out of a line that shows the second one between quotes. -/
theorem roundTrips_iff_three :
    RoundTrips [[0x61, 0x62], [0x63, 0x20, 0x64], [0x78]]
        [0x61, 0x62, 0x20, 0x22, 0x63, 0x20, 0x64, 0x22, 0x09, 0x20, 0x78] PS_TOKEN ↔
      [] ∉ [[0x61, 0x62], [0x63, 0x20, 0x64], [(0x78 : UInt8)]] :=
  roundTrips_iff
    (.cons [0x20] (.bare [0x61, 0x62] (by decide) (by simp [IsBlank, SPACE, TAB, SEMICOLON]))
      (by decide) (by simp [IsBlank, SPACE, TAB, SEMICOLON])
      (.cons [0x09, 0x20] (.quoted [0x63, 0x20, 0x64]) (by decide)
        (by simp [IsBlank, SPACE, TAB, SEMICOLON])
        (.single (.bare [0x78] (by decide) (by simp [IsBlank, SPACE, TAB, SEMICOLON])))))
    (by simp [IsPlain, QUOTE, BACKSLASH]) (by decide) PS_TOKEN

/-- Two quotes show one empty argument, and a quote comes out. -/
theorem roundTrips_fails :
    Rendered [[]] [0x22, 0x22] ∧
      (parseArgs 4 [0x22, 0x22, 0] 0 PS_TOKEN).map ParseArgs.strings = some [[0x22]] ∧
      ¬ RoundTrips [[]] [0x22, 0x22] PS_TOKEN := by
  have hrendered : Rendered [[]] [0x22, 0x22] := .single (.quoted [])
  refine ⟨hrendered, by decide, ?_⟩
  rw [roundTrips_iff hrendered (by simp) (by decide)]
  simp

end ACoral
