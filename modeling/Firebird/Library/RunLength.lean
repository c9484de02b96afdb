import Mathlib.Data.List.Basic

/-!
# Run-length segmentation

A sequence is cut into literal runs, whose elements are listed, and repeat runs, which name one
element and a count.  The segmentation is independent of how an encoding writes the run headers.
-/

namespace RunLength

variable {α : Type*}

/-- One segment of a run-length encoded sequence. -/
inductive Run (α : Type*) where
  /-- The elements themselves. -/
  | literal (elements : List α)
  /-- `count` copies of one element. -/
  | repeated (count : Nat) (element : α)
  deriving DecidableEq, Repr

namespace Run

/-- The elements a segment stands for. -/
def expand : Run α → List α
  | literal elements => elements
  | repeated count element => List.replicate count element

/-- The number of elements an encoding stores for a segment. -/
def stored : Run α → Nat
  | literal elements => elements.length
  | repeated _ _ => 1

/-- A segment is nonempty and within the two caps of its encoding. -/
def Within (literalCap repeatCap : Nat) : Run α → Prop
  | literal elements => 0 < elements.length ∧ elements.length ≤ literalCap
  | repeated count _ => 0 < count ∧ count ≤ repeatCap

end Run

/-- The sequence a list of segments stands for. -/
def expand (runs : List (Run α)) : List α := runs.flatMap Run.expand

@[simp] theorem expand_nil : expand ([] : List (Run α)) = [] := rfl

@[simp] theorem expand_cons (run : Run α) (runs : List (Run α)) :
    expand (run :: runs) = run.expand ++ expand runs := rfl

@[simp] theorem expand_append (left right : List (Run α)) :
    expand (left ++ right) = expand left ++ expand right := by
  simp [expand, List.flatMap_append]

/-- Cut a literal sequence into pieces of at most `cap + 1` elements. -/
def literals (cap : Nat) (elements : List α) : List (Run α) :=
  match elements with
  | [] => []
  | head :: tail =>
      .literal ((head :: tail).take (cap + 1)) :: literals cap ((head :: tail).drop (cap + 1))
termination_by elements.length
decreasing_by
  simp only [List.length_drop, List.length_cons]
  omega

theorem literals_of_ne_nil {cap : Nat} {elements : List α} (nonempty : elements ≠ []) :
    literals cap elements =
      .literal (elements.take (cap + 1)) :: literals cap (elements.drop (cap + 1)) := by
  obtain ⟨head, tail, rfl⟩ := List.exists_cons_of_ne_nil nonempty
  rw [literals]

@[simp] theorem literals_nil (cap : Nat) : literals cap ([] : List α) = [] := by
  rw [literals]

@[simp] theorem expand_literals (cap : Nat) (elements : List α) :
    expand (literals cap elements) = elements := by
  induction elements using literals.induct cap with
  | case1 => simp
  | case2 head tail ih =>
      rw [literals, expand_cons, ih]
      exact List.take_append_drop (cap + 1) (head :: tail)

theorem literals_within (cap repeatCap : Nat) (elements : List α) :
    ∀ run ∈ literals cap elements, run.Within (cap + 1) repeatCap := by
  induction elements using literals.induct cap with
  | case1 => simp
  | case2 head tail ih =>
      intro run member
      rw [literals, List.mem_cons] at member
      rcases member with rfl | member
      · simp only [Run.Within, List.length_take, List.length_cons]
        omega
      · exact ih run member

/-- Long pieces need few headers: two headers already pay for more than one element. -/
theorem length_literals (cap : Nat) (large : 0 < cap) (elements : List α) :
    2 * (literals cap elements).length ≤ elements.length + 1 := by
  induction elements using literals.induct cap with
  | case1 => simp
  | case2 head tail ih =>
      rw [literals, List.length_cons]
      by_cases done : (head :: tail).drop (cap + 1) = []
      · rw [done]
        simp
      · have remaining : 0 < ((head :: tail).drop (cap + 1)).length :=
          List.length_pos_of_ne_nil done
        rw [List.length_drop] at ih remaining
        omega

end RunLength
