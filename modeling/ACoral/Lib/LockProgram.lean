import Mathlib.Data.List.Basic

/-!
# `ACoral.Lib.LockProgram`: programs with nested sections and locks

A program over shared data `S` is a tree of instructions (`Prog`): it
enters and leaves nested sections, takes and gives back the locks `L`, and
reads and writes the data in between. A read goes on with the data as it is
at that moment, so other programs may change it between any two instructions.

`Prog.wp` is the weakest precondition of a program for its bookkeeping: the
number of reads so far, the depth of its sections, and the locks it holds.
The data is arbitrary at each read, but for what `G` says of it.

- `wp_bind`: the rule of sequencing.
- `Balanced`: a program that leaves the depth and the locks as it found
  them. `Closes` counts what is still open, with a rule for each instruction.
- `Prog.alone`: what a program computes that nobody interrupts.
-/

set_option autoImplicit false

namespace ACoral.Lib

/-- A program. A read or a write knows the CPU that executes it. -/
inductive Prog (S L A : Type) where
  /-- return `a` -/
  | ret (a : A)
  /-- enter a section -/
  | enter (k : Prog S L A)
  /-- leave a section -/
  | exit (k : Prog S L A)
  /-- take a lock -/
  | lock (l : L) (k : Prog S L A)
  /-- give it back -/
  | unlock (l : L) (k : Prog S L A)
  /-- read the data -/
  | read (f : Nat → S → Prog S L A)
  /-- write the data; a write that is `none` does not come back -/
  | write (f : Nat → S → Option S) (k : Prog S L A)

namespace Prog

variable {S L A B : Type}

/-- Sequencing. -/
def bind : Prog S L A → (A → Prog S L B) → Prog S L B
  | .ret a, f      => f a
  | .enter k, f    => .enter (k.bind f)
  | .exit k, f     => .exit (k.bind f)
  | .lock l k, f   => .lock l (k.bind f)
  | .unlock l k, f => .unlock l (k.bind f)
  | .read g, f     => .read fun cpu s => (g cpu s).bind f
  | .write g k, f  => .write g (k.bind f)

instance : Monad (Prog S L) where
  pure := .ret
  bind := Prog.bind

/-- Is the next instruction a read? -/
def isRead : Prog S L A → Bool
  | .read _ => true
  | _       => false

/-! ### Instructions -/

/-- Enter a section. -/
def enterSection : Prog S L Unit := .enter (.ret ())

/-- Leave a section. -/
def exitSection : Prog S L Unit := .exit (.ret ())

/-- Take a lock. -/
def acquire (l : L) : Prog S L Unit := .lock l (.ret ())

/-- Give a lock back. -/
def release (l : L) : Prog S L Unit := .unlock l (.ret ())

/-- The data. -/
def get : Prog S L S := .read fun _ s => .ret s

/-- The CPU. -/
def cpu : Prog S L Nat := .read fun cpu _ => .ret cpu

/-- Change the data, if it can be. -/
def update (f : S → Option S) : Prog S L Unit := .write (fun _ s => f s) (.ret ())

/-- Change the data. -/
def modify (f : S → S) : Prog S L Unit := update fun s => some (f s)

/-- Change the data, with the CPU known. -/
def modifyOn (f : Nat → S → S) : Prog S L Unit := .write (fun cpu s => some (f cpu s)) (.ret ())

/-- Do not come back. -/
def hang : Prog S L Unit := update fun _ => none

/-! ### Running alone -/

/-- What a program computes that nobody interrupts. -/
def alone (cpu : Nat) : Prog S L A → S → Option (A × S)
  | .ret a, s      => some (a, s)
  | .enter k, s    => k.alone cpu s
  | .exit k, s     => k.alone cpu s
  | .lock _ k, s   => k.alone cpu s
  | .unlock _ k, s => k.alone cpu s
  | .read f, s     => (f cpu s).alone cpu s
  | .write f k, s  => (f cpu s).bind fun s => k.alone cpu s

/-- The rule of sequencing. -/
theorem alone_bind (p : Prog S L A) (f : A → Prog S L B) (cpu : Nat) (s : S) :
    (p >>= f).alone cpu s = (p.alone cpu s).bind fun res => (f res.1).alone cpu res.2 := by
  show (p.bind f).alone cpu s = _
  induction p generalizing s with
  | ret a => rfl
  | enter k ih => exact ih s
  | exit k ih => exact ih s
  | lock l k ih => exact ih s
  | unlock l k ih => exact ih s
  | read g ih => exact ih cpu s s
  | write g k ih =>
      simp only [Prog.bind, alone]
      cases g cpu s with
      | none => rfl
      | some s' => exact ih s'

section Alone

variable (cpu : Nat) (s : S)

@[simp] theorem alone_pure (a : A) : (pure a : Prog S L A).alone cpu s = some (a, s) := rfl

@[simp] theorem alone_enterSection : (enterSection : Prog S L Unit).alone cpu s = some ((), s) := rfl

@[simp] theorem alone_exitSection : (exitSection : Prog S L Unit).alone cpu s = some ((), s) := rfl

@[simp] theorem alone_acquire (l : L) : (acquire l : Prog S L Unit).alone cpu s = some ((), s) := rfl

@[simp] theorem alone_release (l : L) : (release l : Prog S L Unit).alone cpu s = some ((), s) := rfl

@[simp] theorem alone_get : (get : Prog S L S).alone cpu s = some (s, s) := rfl

@[simp] theorem alone_cpu : (Prog.cpu : Prog S L Nat).alone cpu s = some (cpu, s) := rfl

@[simp] theorem alone_update (f : S → Option S) :
    (update f : Prog S L Unit).alone cpu s = (f s).map fun s => ((), s) := by
  cases h : f s <;> simp [update, alone, h]

@[simp] theorem alone_modify (f : S → S) :
    (modify f : Prog S L Unit).alone cpu s = some ((), f s) := rfl

@[simp] theorem alone_modifyOn (f : Nat → S → S) :
    (modifyOn f : Prog S L Unit).alone cpu s = some ((), f cpu s) := rfl

end Alone

/-! ### The weakest precondition -/

variable [DecidableEq L]

/-- From `n` reads, the depth `d` and the locks `held` on, the program leaves
no section it is not in, gives back no lock it does not hold, and ends in `Q`. -/
def wp (G : Nat → S → Prop) : Prog S L A → (n d : Nat) → (held : List L) →
    (Nat → Nat → List L → A → Prop) → Prop
  | .ret a, n, d, held, Q      => Q n d held a
  | .enter k, n, d, held, Q    => k.wp G n (d + 1) held Q
  | .exit k, n, d, held, Q     => 0 < d ∧ k.wp G n (d - 1) held Q
  -- a lock that is held by the program itself is never got
  | .lock l k, n, d, held, Q   => l ∉ held → k.wp G n d (l :: held) Q
  | .unlock l k, n, d, held, Q => l ∈ held ∧ k.wp G n d (held.erase l) Q
  | .read f, n, d, held, Q     => ∀ cpu s, G n s → (f cpu s).wp G (n + 1) d held Q
  | .write _ k, n, d, held, Q  => k.wp G n d held Q

variable {G : Nat → S → Prop} {n d : Nat} {held : List L}

/-- The rule of sequencing. -/
theorem wp_bind {p : Prog S L A} {f : A → Prog S L B} {Q : Nat → Nat → List L → B → Prop} :
    (p >>= f).wp G n d held Q ↔ p.wp G n d held fun n d held a => (f a).wp G n d held Q := by
  show (p.bind f).wp G n d held Q ↔ _
  induction p generalizing n d held with
  | ret a => rfl
  | enter k ih => exact ih
  | exit k ih => exact and_congr_right fun _ => ih
  | lock l k ih => exact imp_congr_right fun _ => ih
  | unlock l k ih => exact and_congr_right fun _ => ih
  | read g ih => exact forall_congr' fun cpu => forall_congr' fun s => imp_congr_right fun _ => ih cpu s
  | write g k ih => exact ih

/-- The rule of consequence. -/
theorem wp_mono {p : Prog S L A} {Q Q' : Nat → Nat → List L → A → Prop} (h : p.wp G n d held Q)
    (hQ : ∀ n d held a, Q n d held a → Q' n d held a) : p.wp G n d held Q' := by
  induction p generalizing n d held with
  | ret a => exact hQ n d held a h
  | enter k ih => exact ih h
  | exit k ih => exact ⟨h.1, ih h.2⟩
  | lock l k ih => exact fun hl => ih (h hl)
  | unlock l k ih => exact ⟨h.1, ih h.2⟩
  | read g ih => exact fun cpu s hs => ih cpu s (h cpu s hs)
  | write g k ih => exact ih h

@[simp] theorem wp_enterSection {Q : Nat → Nat → List L → Unit → Prop} :
    (enterSection : Prog S L Unit).wp G n d held Q ↔ Q n (d + 1) held () := Iff.rfl

@[simp] theorem wp_get {Q : Nat → Nat → List L → S → Prop} :
    (get : Prog S L S).wp G n d held Q ↔ ∀ s, G n s → Q (n + 1) d held s :=
  ⟨fun h s => h 0 s, fun h _ s => h s⟩

@[simp] theorem wp_cpu {Q : Nat → Nat → List L → Nat → Prop} :
    (Prog.cpu : Prog S L Nat).wp G n d held Q ↔ ∀ cpu s, G n s → Q (n + 1) d held cpu := Iff.rfl

/-! ### Balanced programs -/

/-- The program leaves `k` sections and gives back the locks `ls`, and nothing
else. -/
def Closes (k : Nat) (ls : List L) (p : Prog S L A) : Prop :=
  ∀ (G : Nat → S → Prop) (n d : Nat) (held : List L),
    p.wp G n (d + k) (ls ++ held) fun _ d' held' _ => d' = d ∧ held' = held

/-- The program leaves the depth and the locks as it finds them. -/
def Balanced (p : Prog S L A) : Prop := p.Closes 0 []

namespace Closes

variable {k : Nat} {ls : List L} {p : Prog S L A} {f : A → Prog S L B} {g : Unit → Prog S L B}

/-- A balanced program in front. -/
theorem bind (hp : p.Balanced) (hf : ∀ a, (f a).Closes k ls) : (p >>= f).Closes k ls := by
  intro G n d held
  refine Prog.wp_bind.mpr (wp_mono (hp G n (d + k) (ls ++ held)) ?_)
  rintro n' d' held' a ⟨rfl, rfl⟩
  exact hf a G n' d held

/-- A section is entered. -/
theorem enter (hg : (g ()).Closes (k + 1) ls) : (enterSection >>= g).Closes k ls := by
  intro G n d held
  exact Prog.wp_bind.mpr (hg G n d held)

/-- A section is left. -/
theorem exit (hg : (g ()).Closes k ls) : (exitSection >>= g).Closes (k + 1) ls := by
  intro G n d held
  exact Prog.wp_bind.mpr ⟨Nat.succ_pos _, hg G n d held⟩

/-- A lock is taken. -/
theorem acquire {l : L} (hg : (g ()).Closes k (l :: ls)) : (Prog.acquire l >>= g).Closes k ls := by
  intro G n d held
  exact Prog.wp_bind.mpr fun _ => hg G n d held

/-- A lock is given back. -/
theorem release {l : L} (hg : (g ()).Closes k ls) :
    (Prog.release l >>= g).Closes k (l :: ls) := by
  intro G n d held
  refine Prog.wp_bind.mpr ⟨by simp, ?_⟩
  have herase : (l :: ls ++ held).erase l = ls ++ held := by simp
  rw [herase]
  exact hg G n d held

/-- A branch. -/
theorem ite {c : Prop} [Decidable c] {q : Prog S L A} (hp : c → p.Closes k ls)
    (hq : ¬ c → q.Closes k ls) : (if c then p else q).Closes k ls := by
  split
  · exact hp ‹c›
  · exact hq ‹¬ c›

/-! Single instructions. -/

theorem pure (a : A) : (Pure.pure a : Prog S L A).Balanced := fun _ _ _ _ => ⟨rfl, rfl⟩

theorem get : (Prog.get : Prog S L S).Balanced := fun _ _ _ _ => wp_get.mpr fun _ _ => ⟨rfl, rfl⟩

theorem cpu : (Prog.cpu : Prog S L Nat).Balanced :=
  fun _ _ _ _ => wp_cpu.mpr fun _ _ _ => ⟨rfl, rfl⟩

theorem update (f : S → Option S) : (Prog.update f : Prog S L Unit).Balanced :=
  fun _ _ _ _ => ⟨rfl, rfl⟩

theorem modify (f : S → S) : (Prog.modify f : Prog S L Unit).Balanced := fun _ _ _ _ => ⟨rfl, rfl⟩

theorem modifyOn (f : Nat → S → S) : (Prog.modifyOn f : Prog S L Unit).Balanced :=
  fun _ _ _ _ => ⟨rfl, rfl⟩

theorem hang : (Prog.hang : Prog S L Unit).Balanced := fun _ _ _ _ => ⟨rfl, rfl⟩

/-- The last instruction of a section leaves it. -/
theorem exitSection : (Prog.exitSection : Prog S L Unit).Closes 1 [] :=
  fun _ _ _ _ => ⟨Nat.succ_pos _, rfl, rfl⟩

end Closes

/-! ### Programs that leave a section and enter it again -/

/-- From `k` sections open to `k'`, the locks as they were. -/
def Moves (k k' : Nat) (p : Prog S L A) : Prop :=
  ∀ (G : Nat → S → Prop) (n d : Nat) (held : List L),
    p.wp G n (d + k) held fun _ d' held' _ => d' = d + k' ∧ held' = held

namespace Moves

variable {k k₁ k₂ : Nat} {p : Prog S L A} {f : A → Prog S L B}

theorem of_balanced (hp : p.Balanced) : p.Moves k k := fun G n d held => hp G n (d + k) held

theorem enter : (enterSection : Prog S L Unit).Moves 0 1 := fun _ _ _ _ => ⟨rfl, rfl⟩

theorem exit : (exitSection : Prog S L Unit).Moves 1 0 :=
  fun _ _ _ _ => ⟨Nat.succ_pos _, rfl, rfl⟩

/-- The rule of sequencing. -/
theorem bind (hp : p.Moves k k₁) (hf : ∀ a, (f a).Moves k₁ k₂) : (p >>= f).Moves k k₂ := by
  intro G n d held
  refine Prog.wp_bind.mpr (wp_mono (hp G n d held) ?_)
  rintro n' d' held' a ⟨rfl, rfl⟩
  exact hf a G n' d held'

/-- A branch. -/
theorem ite {c : Prop} [Decidable c] {q : Prog S L A} (hp : c → p.Moves k k₁)
    (hq : ¬ c → q.Moves k k₁) : (if c then p else q).Moves k k₁ := by
  split
  · exact hp ‹c›
  · exact hq ‹¬ c›

/-- In front of the rest of a section. -/
theorem closes (hp : p.Moves 1 1) (hf : ∀ a, (f a).Closes 1 []) : (p >>= f).Closes 1 [] := by
  intro G n d held
  refine Prog.wp_bind.mpr (wp_mono (hp G n d held) ?_)
  rintro n' d' held' a ⟨rfl, rfl⟩
  exact hf a G n' d held'

end Moves

end Prog

end ACoral.Lib
