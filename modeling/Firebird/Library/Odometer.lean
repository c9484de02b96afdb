import Mathlib.Data.List.Perm.Basic
import Mathlib.Data.List.Sections

/-!
# Odometers

Wheels turn over lists of values.  The first wheel turns every time; a wheel that has run out goes
back to its front and turns the next one.  From the front of all wheels an odometer shows every
choice of one value from each list, in the order of `List.sections`, and then stops.
-/

namespace Firebird
namespace Odometer

variable {α : Type*}

/-- One turn; a wheel is what its list shows from the current value on. -/
def turn : List (List α) → List (List α) → Option (List (List α))
  | _ :: _, (_ :: next :: following) :: others => some ((next :: following) :: others)
  | front :: fronts, _ :: others => (turn fronts others).map (front :: ·)
  | _, _ => none

theorem turn_last (front : List α) (fronts : List (List α)) (value : α) (others : List (List α)) :
    turn (front :: fronts) ([value] :: others) = (turn fronts others).map (front :: ·) := rfl

/-- The values at the wheels. -/
def shown (wheels : List (List α)) : List α := wheels.filterMap List.head?

/-- The choices from the current values on. -/
def ahead : List (List α) → List (List α) → List (List α)
  | front :: fronts, wheel :: others =>
      wheel.map (· :: shown others) ++
        (ahead fronts others).tail.flatMap fun choice => front.map (· :: choice)
  | _, _ => [[]]

/-- Every wheel shows a value and has one at its front. -/
def Turning (fronts wheels : List (List α)) : Prop :=
  List.Forall₂ (fun front wheel => front ≠ [] ∧ wheel ≠ []) fronts wheels

theorem turning_self {fronts : List (List α)} (nonempty : ∀ front ∈ fronts, front ≠ []) :
    Turning fronts fronts := by
  induction fronts with
  | nil => exact .nil
  | cons front fronts ih =>
      have front_ne := nonempty front List.mem_cons_self
      exact .cons ⟨front_ne, front_ne⟩ (ih fun _ member => nonempty _ (List.mem_cons_of_mem _ member))

theorem shown_cons (value : α) (following : List α) (others : List (List α)) :
    shown ((value :: following) :: others) = value :: shown others := rfl

/-- The current choice comes first. -/
theorem ahead_eq_cons {fronts wheels : List (List α)} (turning : Turning fronts wheels) :
    ∃ rest, ahead fronts wheels = shown wheels :: rest := by
  cases turning with
  | nil => exact ⟨[], rfl⟩
  | @cons front wheel fronts others nonempty later =>
      obtain ⟨value, following, rfl⟩ := List.exists_cons_of_ne_nil nonempty.2
      exact ⟨_, rfl⟩

theorem ahead_of_turn_none {fronts wheels : List (List α)} (turning : Turning fronts wheels)
    (stopped : turn fronts wheels = none) : ahead fronts wheels = [shown wheels] := by
  induction turning with
  | nil => rfl
  | @cons front wheel fronts others nonempty later ih =>
      obtain ⟨value, following, rfl⟩ := List.exists_cons_of_ne_nil nonempty.2
      cases following with
      | cons next following => exact absurd stopped (Option.some_ne_none _)
      | nil =>
          have others_stopped : turn fronts others = none := Option.map_eq_none_iff.mp stopped
          rw [ahead, ih others_stopped]
          rfl

theorem ahead_of_turn_some {fronts wheels turned : List (List α)} (turning : Turning fronts wheels)
    (moved : turn fronts wheels = some turned) :
    Turning fronts turned ∧ ahead fronts wheels = shown wheels :: ahead fronts turned := by
  induction turning generalizing turned with
  | nil => exact absurd moved.symm (Option.some_ne_none _)
  | @cons front wheel fronts others nonempty later ih =>
      obtain ⟨value, following, rfl⟩ := List.exists_cons_of_ne_nil nonempty.2
      cases following with
      | cons next following =>
          obtain rfl := Option.some.inj moved
          exact ⟨.cons ⟨nonempty.1, List.cons_ne_nil _ _⟩ later, rfl⟩
      | nil =>
          obtain ⟨others_turned, others_moved, rfl⟩ := Option.map_eq_some_iff.mp moved
          obtain ⟨turning_others, ahead_eq⟩ := ih others_moved
          obtain ⟨rest, rest_eq⟩ := ahead_eq_cons turning_others
          refine ⟨.cons ⟨nonempty.1, nonempty.1⟩ turning_others, ?_⟩
          rw [ahead, ahead, ahead_eq, rest_eq]
          rfl

/-- From the front of all wheels every choice lies ahead. -/
theorem ahead_self {fronts : List (List α)} (nonempty : ∀ front ∈ fronts, front ≠ []) :
    ahead fronts fronts = fronts.sections := by
  induction fronts with
  | nil => rfl
  | cons front fronts ih =>
      have later : ∀ front ∈ fronts, front ≠ [] := fun _ member =>
        nonempty _ (List.mem_cons_of_mem _ member)
      obtain ⟨rest, rest_eq⟩ := ahead_eq_cons (turning_self later)
      rw [ahead, List.sections, ← ih later, rest_eq]
      rfl

/-! ## Wheels in the order of indices -/

/-- The values at the indices before `count`, from the last one to the first. -/
def fromLast (value : Nat → α) : Nat → List α
  | 0 => []
  | count + 1 => value count :: fromLast value count

theorem fromLast_succ (value : Nat → α) (count : Nat) :
    fromLast value (count + 1) = value count :: fromLast value count := rfl

theorem map_fromLast {β : Type*} (f : α → β) (value : Nat → α) (count : Nat) :
    (fromLast value count).map f = fromLast (fun index => f (value index)) count := by
  induction count with
  | zero => rfl
  | succ count ih => exact congrArg (f (value count) :: ·) ih

theorem forall₂_fromLast {β : Type*} {related : α → β → Prop} {value : Nat → α} {other : Nat → β}
    {count : Nat} (each : ∀ index < count, related (value index) (other index)) :
    List.Forall₂ related (fromLast value count) (fromLast other count) := by
  induction count with
  | zero => exact .nil
  | succ count ih =>
      exact .cons (each count (Nat.lt_succ_self count))
        (ih fun index before => each index (Nat.lt_succ_of_lt before))

theorem mem_fromLast {value : Nat → α} {item : α} {index count : Nat}
    (index_lt : index < count) (value_eq : value index = item) : item ∈ fromLast value count := by
  induction count with
  | zero => exact absurd index_lt (Nat.not_lt_zero _)
  | succ count ih =>
      rcases Nat.lt_succ_iff_lt_or_eq.mp index_lt with before | rfl
      · exact List.mem_cons_of_mem _ (ih before)
      · exact value_eq ▸ List.mem_cons_self

theorem exists_of_mem_fromLast {value : Nat → α} {item : α} {count : Nat}
    (member : item ∈ fromLast value count) : ∃ index < count, value index = item := by
  induction count with
  | zero => cases member
  | succ count ih =>
      rcases List.mem_cons.mp member with rfl | later
      · exact ⟨count, Nat.lt_succ_self count, rfl⟩
      · obtain ⟨index, before, value_eq⟩ := ih later
        exact ⟨index, Nat.lt_succ_of_lt before, value_eq⟩

theorem fromLast_congr {value other : Nat → α} {count : Nat}
    (same : ∀ index < count, value index = other index) :
    fromLast value count = fromLast other count := by
  induction count with
  | zero => rfl
  | succ count ih =>
      rw [fromLast, fromLast, same count (Nat.lt_succ_self count),
        ih fun index before => same index (Nat.lt_succ_of_lt before)]

/-! ## Choices -/

theorem sections_eq_nil {lists : List (List α)} (member : [] ∈ lists) : lists.sections = [] := by
  refine List.eq_nil_iff_forall_not_mem.mpr fun choice chosen => ?_
  rw [List.mem_sections] at chosen
  induction chosen with
  | nil => cases member
  | cons here _ ih =>
      rcases List.mem_cons.mp member with rfl | later
      · cases here
      · exact ih later

theorem sections_map_map {β : Type*} (f : α → β) (lists : List (List α)) :
    (lists.map (List.map f)).sections = lists.sections.map (List.map f) := by
  induction lists with
  | nil => rfl
  | cons list lists ih =>
      simp only [List.map_cons, List.sections, ih, List.flatMap_map, List.map_flatMap, List.map_map]
      rfl

theorem sections_map_filter (keep : α → Bool) (lists : List (List α)) :
    (lists.map (List.filter keep)).sections = lists.sections.filter (List.all · keep) := by
  induction lists with
  | nil => rfl
  | cons list lists ih =>
      rw [List.map_cons, List.sections, List.sections, ih]
      induction lists.sections with
      | nil => rfl
      | cons choice choices later =>
          have here : (list.map (· :: choice)).filter (List.all · keep) =
              if choice.all keep then (list.filter keep).map (· :: choice) else [] := by
            rw [List.filter_map]
            split <;> rename_i kept <;> simp [Function.comp_def, kept]
          rw [List.flatMap_cons, List.filter_append, ← later, here, List.filter_cons]
          split <;> rfl

theorem sections_perm {lists others : List (List α)} (alike : List.Forall₂ List.Perm lists others) :
    lists.sections.Perm others.sections := by
  induction alike with
  | nil => exact .refl _
  | cons perm _ ih =>
      exact (ih.flatMap_right _).trans (List.Perm.flatMap (.refl _) fun choice _ => perm.map _)

end Odometer
end Firebird
