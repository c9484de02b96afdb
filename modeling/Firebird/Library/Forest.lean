import Mathlib.Data.List.Basic

/-!
# Forests and nested visits

A forest is a first tree, by its root and the forest of its children, and the trees after it.  A
walk through it keeps one forest for each level that it is in, the innermost first.  A log of
entering and leaving levels is nested if everything that is left is what was entered last.
-/

namespace Firebird

inductive Forest (α : Type*) where
  | nil
  | cons (row : α) (kids rest : Forest α)
  deriving DecidableEq, Repr

namespace Forest

variable {α : Type*}

/-- The roots of the trees. -/
def roots : Forest α → List α
  | nil => []
  | cons row _ rest => row :: rest.roots

/-- Every root before its children, and these before the trees after it. -/
def preorder : Forest α → List α
  | nil => []
  | cons row kids rest => row :: (kids.preorder ++ rest.preorder)

/-- The number of levels. -/
def height : Forest α → Nat
  | nil => 0
  | cons _ kids rest => max (kids.height + 1) rest.height

/-- The children of each root are those that the function tells. -/
def Grown (children : α → List α) : Forest α → Prop
  | nil => True
  | cons row kids rest =>
      kids.roots = children row ∧ kids.Grown children ∧ rest.Grown children

/-- What is left of a walk: of the innermost level first. -/
def pending : List (Forest α) → List α
  | [] => []
  | forest :: below => forest.preorder ++ pending below

/-- The next root of a walk, and the levels behind it. -/
def next : List (Forest α) → Option (α × Forest α × List (Forest α))
  | [] => none
  | nil :: below => next below
  | cons row kids rest :: below => some (row, kids, rest :: below)

/-- The innermost of the levels reaches to the limit at most, and so do the others. -/
def Fits (limit : Nat) : List (Forest α) → Prop
  | [] => True
  | forest :: below => below.length + forest.height ≤ limit ∧ Fits limit below

variable {levels below : List (Forest α)} {kids : Forest α} {row : α} {limit : Nat}
variable {children : α → List α}

theorem pending_of_next_none (ended : next levels = none) : pending levels = [] := by
  induction levels with
  | nil => rfl
  | cons forest below ih =>
      cases forest with
      | nil => simpa [pending, preorder] using ih ended
      | cons row kids rest => cases ended

theorem pending_of_next (found : next levels = some (row, kids, below)) :
    pending levels = row :: pending (kids :: below) := by
  induction levels with
  | nil => cases found
  | cons forest levels ih =>
      cases forest with
      | nil => simpa [pending, preorder] using ih found
      | cons root kids rest =>
          cases found
          simp [pending, preorder]

theorem fits_of_next (found : next levels = some (row, kids, below)) (fits : Fits limit levels) :
    Fits limit (kids :: below) := by
  induction levels with
  | nil => cases found
  | cons forest levels ih =>
      obtain ⟨top, fits⟩ := fits
      cases forest with
      | nil => exact ih found fits
      | cons root kids rest =>
          cases found
          rw [height] at top
          exact ⟨by simp only [List.length_cons]; omega, by omega, fits⟩

theorem grown_of_next (found : next levels = some (row, kids, below))
    (grown : ∀ forest ∈ levels, forest.Grown children) :
    kids.roots = children row ∧ ∀ forest ∈ kids :: below, forest.Grown children := by
  induction levels with
  | nil => cases found
  | cons forest levels ih =>
      cases forest with
      | nil => exact ih found fun forest member => grown forest (List.mem_cons_of_mem _ member)
      | cons root kids rest =>
          cases found
          obtain ⟨roots_eq, kids_grown, rest_grown⟩ := grown _ List.mem_cons_self
          refine ⟨roots_eq, fun forest member => ?_⟩
          rcases List.mem_cons.mp member with rfl | member
          · exact kids_grown
          · rcases List.mem_cons.mp member with rfl | member
            · exact rest_grown
            · exact grown forest (List.mem_cons_of_mem _ member)

end Forest

/-- What was seen on entering or leaving a level. -/
inductive Visit (σ : Type*) where
  | enter (seen : σ)
  | leave (seen : σ)
  deriving DecidableEq, Repr

/-- A log leads from the levels that are open before it to those that are open after it; whatever a
level shows when it is left is what it showed when it was entered. -/
inductive Visit.Nested {σ : Type*} : List σ → List (Visit σ) → List σ → Prop where
  | done (opened : List σ) : Nested opened [] opened
  | enter {opened after : List σ} {log : List (Visit σ)} (seen : σ)
      (rest : Nested (seen :: opened) log after) : Nested opened (.enter seen :: log) after
  | leave {opened after : List σ} {log : List (Visit σ)} (seen : σ)
      (rest : Nested opened log after) : Nested (seen :: opened) (.leave seen :: log) after

theorem Visit.Nested.append {σ : Type*} {opened between after : List σ}
    {log more : List (Visit σ)} (first : Nested opened log between)
    (second : Nested between more after) : Nested opened (log ++ more) after := by
  induction first with
  | done => exact second
  | enter seen _ ih => exact .enter seen (ih second)
  | leave seen _ ih => exact .leave seen (ih second)

end Firebird
