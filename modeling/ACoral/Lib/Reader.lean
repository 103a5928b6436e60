import Mathlib.Data.List.Basic

/-!
# `ACoral.Lib.Reader`: readers of a stream

A reader takes a part from the start of a stream. It gives a value and the rest of the stream,
or an error. `Takes read p a` says that `p` is such a part, and `a` its value, whatever comes
after it. A reader is `Exact` when all its results come about like this: then what it accepts is
described by `Takes` alone (`Exact.ok_iff`).
-/

set_option autoImplicit false

namespace ACoral.Lib

variable {ε α β τ : Type}

theorem except_bind_eq_ok {x : Except ε α} {f : α → Except ε β} {b : β} :
    x.bind f = .ok b ↔ ∃ a, x = .ok a ∧ f a = .ok b := by
  cases x with
  | error e => exact ⟨nofun, fun ⟨_, h, _⟩ => absurd h nofun⟩
  | ok a => exact ⟨fun h => ⟨a, rfl, h⟩, fun ⟨_, h, hf⟩ => by cases h; exact hf⟩

theorem except_map_eq_ok {x : Except ε α} {f : α → β} {b : β} :
    x.map f = .ok b ↔ ∃ a, x = .ok a ∧ f a = b := by
  cases x with
  | error e => exact ⟨nofun, fun ⟨_, h, _⟩ => absurd h nofun⟩
  | ok a => exact ⟨fun h => ⟨a, rfl, Except.ok.inj h⟩, fun ⟨_, h, hf⟩ => by cases h; cases hf; rfl⟩

/-- The reader takes the part `p` from every stream that starts with it. -/
def Takes (read : List τ → Except ε (α × List τ)) (p : List τ) (a : α) : Prop :=
  ∀ rest, read (p ++ rest) = .ok (a, rest)

/-- The reader takes nothing else. -/
def Exact (read : List τ → Except ε (α × List τ)) : Prop :=
  ∀ stream a rest, read stream = .ok (a, rest) → ∃ p, Takes read p a ∧ stream = p ++ rest

theorem Exact.ok_iff {read : List τ → Except ε (α × List τ)} (h : Exact read) {stream rest : List τ}
    {a : α} : read stream = .ok (a, rest) ↔ ∃ p, Takes read p a ∧ stream = p ++ rest :=
  ⟨h stream a rest, fun ⟨_, hp, heq⟩ => by rw [heq]; exact hp rest⟩

end ACoral.Lib
