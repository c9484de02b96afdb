import Mathlib.Logic.Function.Basic

/-!
# Stacks of undo logs

A log holds, for every key that changed since it was opened, what takes the change back.  It covers
the time between two states when it leads from the later state to the earlier one.  A change is
covered by recording what takes it back, or not at all when the log already holds something for the
key that the change does not disturb.  A log closes into the one below it, and what the lower log
holds for a key stays.
-/

namespace Firebird
namespace UndoLog

universe u v

variable {κ : Type u} {ν : Type v}

/-- For each changed key, how the value is taken back; the result is `none` on a value that cannot
be taken back. -/
abbrev Log (κ : Type u) (ν : Type v) : Type (max u v) := κ → Option (ν → Option ν)

/-- A log that nothing was recorded in. -/
def Log.empty : Log κ ν := fun _ => none

/-- The log leads from the later state to the earlier one. -/
def Covers (log : Log κ ν) (before after : κ → ν) : Prop :=
  ∀ key, match log key with
    | none => after key = before key
    | some undo => undo (after key) = some (before key)

/-- The lower log after the upper one has been closed into it. -/
def Log.close (lower upper : Log κ ν) : Log κ ν := fun key => (lower key).or (upper key)

/-- Where both logs hold something, what the lower one holds also takes back the later value. -/
def Closable (lower upper : Log κ ν) : Prop :=
  ∀ key outer inner, lower key = some outer → upper key = some inner →
    ∀ value middle, inner value = some middle → outer middle = outer value

theorem Covers.empty (state : κ → ν) : Covers Log.empty state state := fun _ => rfl

theorem Covers.of_none {log : Log κ ν} {before after : κ → ν} {key : κ}
    (covers : Covers log before after) (untouched : log key = none) : after key = before key := by
  have at_key := covers key
  rwa [untouched] at at_key

theorem Covers.of_some {log : Log κ ν} {before after : κ → ν} {key : κ} {undo : ν → Option ν}
    (covers : Covers log before after) (held : log key = some undo) :
    undo (after key) = some (before key) := by
  have at_key := covers key
  rwa [held] at at_key

/-- Closing a log into the one below covers both spans of time. -/
theorem Covers.close {lower upper : Log κ ν} {first second third : κ → ν}
    (below : Covers lower first second) (above : Covers upper second third)
    (closable : Closable lower upper) : Covers (lower.close upper) first third := by
  intro key
  cases lower_eq : lower key with
  | none =>
      have same := below.of_none lower_eq
      have at_key := above key
      simp only [Log.close, lower_eq, Option.none_or]
      cases upper_eq : upper key with
      | none =>
          rw [upper_eq] at at_key
          exact at_key.trans same
      | some inner =>
          rw [upper_eq] at at_key
          exact at_key.trans (congrArg some same)
  | some outer =>
      have taken := below.of_some lower_eq
      simp only [Log.close, lower_eq, Option.some_or]
      cases upper_eq : upper key with
      | none => rw [above.of_none upper_eq, taken]
      | some inner =>
          have same := closable key outer inner lower_eq upper_eq _ _ (above.of_some upper_eq)
          rw [← same, taken]

section Changes

variable [DecidableEq κ] {log recorded : Log κ ν} {before after : κ → ν} {key : κ} {value : ν}

/-- The first change of a key is covered by what takes it back. -/
theorem Covers.record (undo : ν → Option ν) (covers : Covers log before after)
    (untouched : log key = none) (undoes : undo value = some (after key))
    (at_key : recorded key = some undo)
    (elsewhere : ∀ other, other ≠ key → recorded other = log other) :
    Covers recorded before (Function.update after key value) := by
  intro other
  by_cases same : other = key
  · subst same
    rw [at_key, Function.update_self]
    exact undoes.trans (congrArg some (covers.of_none untouched))
  · rw [elsewhere other same, Function.update_of_ne same]
    exact covers other

/-- A later change of a key needs no record when what is held takes it back too. -/
theorem Covers.absorb {undo : ν → Option ν} (covers : Covers log before after)
    (held : log key = some undo) (undoes : undo value = undo (after key)) :
    Covers log before (Function.update after key value) := by
  intro other
  by_cases same : other = key
  · subst same
    rw [held, Function.update_self]
    exact undoes.trans (covers.of_some held)
  · rw [Function.update_of_ne same]
    exact covers other

end Changes

/-- Logs with the states they were opened in, the latest first: each covers the time up to the
opening of the next. -/
def Stacked : List (Log κ ν × (κ → ν)) → (κ → ν) → Prop
  | [], _ => True
  | (log, opened) :: rest, now => Covers log opened now ∧ Stacked rest opened

theorem Stacked.start {stack : List (Log κ ν × (κ → ν))} {now : κ → ν} (stacked : Stacked stack now) :
    Stacked ((Log.empty, now) :: stack) now :=
  ⟨Covers.empty now, stacked⟩

/-- Closing the latest log into the one below keeps the stack. -/
theorem Stacked.close {lower upper : Log κ ν} {first second now : κ → ν}
    {rest : List (Log κ ν × (κ → ν))}
    (stacked : Stacked ((upper, second) :: (lower, first) :: rest) now)
    (closable : Closable lower upper) : Stacked ((lower.close upper, first) :: rest) now := by
  obtain ⟨above, below, deeper⟩ := stacked
  exact ⟨below.close above closable, deeper⟩

end UndoLog
end Firebird
