import Mathlib

/-!
# Positional edit scripts

A script walks over a sequence from its front.  Each edit keeps the next elements or replaces them
by listed ones; what lies behind the script is untouched.
-/

namespace Overwrite

variable {α : Type*}

/-- One edit of a script. -/
inductive Edit (α : Type*) where
  /-- Leave the next `count` elements as they are. -/
  | keep (count : Nat)
  /-- Put these elements in place of as many. -/
  | put (elements : List α)
  deriving DecidableEq, Repr

/-- The number of elements an edit walks over. -/
def Edit.span : Edit α → Nat
  | .keep count => count
  | .put elements => elements.length

/-- The number of elements a script walks over. -/
def span (script : List (Edit α)) : Nat := (script.map Edit.span).sum

@[simp] theorem span_nil : span ([] : List (Edit α)) = 0 := rfl

@[simp] theorem span_cons (edit : Edit α) (script : List (Edit α)) :
    span (edit :: script) = edit.span + span script := by
  simp [span]

/-- The elements an edit leaves in place of the ones it walks over. -/
def Edit.image (target : List α) : Edit α → List α
  | .keep count => target.take count
  | .put elements => elements

/-- A sequence after a script. -/
def apply : List (Edit α) → List α → List α
  | [], target => target
  | edit :: script, target => edit.image target ++ apply script (target.drop edit.span)

/-- What a script produces from every sequence that starts with `base`. -/
def Produces (script : List (Edit α)) (base result : List α) : Prop :=
  span script = result.length ∧
    ∀ target, base <+: target → result.length ≤ target.length →
      apply script target = result ++ target.drop result.length

namespace Produces

theorem nil (base : List α) : Produces [] base [] :=
  ⟨rfl, fun _ _ _ => rfl⟩

/-- Keeping the elements that the base has in common with the result. -/
theorem keep {script : List (Edit α)} {common base result : List α}
    (later : Produces script base result) :
    Produces (.keep common.length :: script) (common ++ base) (common ++ result) := by
  obtain ⟨span_eq, applied⟩ := later
  refine ⟨by simp [Edit.span, span_eq], ?_⟩
  rintro _ ⟨tail, rfl⟩ room
  rw [List.append_assoc] at room ⊢
  rw [List.length_append, List.length_append] at room
  have remaining := applied (base ++ tail) (List.prefix_append _ _) (by omega)
  rw [apply, Edit.image, Edit.span, List.take_left, List.drop_left, remaining,
    List.append_assoc, List.length_append, List.drop_length_add_append]

/-- Replacing the elements of the base in front, however many of them there are. -/
theorem put {script : List (Edit α)} {base result : List α} (elements : List α)
    (later : Produces script (base.drop elements.length) result) :
    Produces (.put elements :: script) base (elements ++ result) := by
  obtain ⟨span_eq, applied⟩ := later
  refine ⟨by simp [Edit.span, span_eq], ?_⟩
  intro target start room
  rw [List.length_append] at room
  have dropped : base.drop elements.length <+: target.drop elements.length :=
    List.IsPrefix.drop start _
  rw [apply, Edit.image, Edit.span, applied _ dropped (by rw [List.length_drop]; omega),
    List.append_assoc, List.drop_drop, List.length_append]

end Produces

end Overwrite
