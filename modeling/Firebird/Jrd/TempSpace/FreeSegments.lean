import Firebird.Jrd.TempSpace.ReadWrite

/-!
# The free segments of a temporary space

`allocateSpace` takes the smallest free segment that is large enough, and `releaseSpace` joins what is
given back with the free segments next to it.  The tree of the segments is the list of its items by
their positions; both functions change items in place.
-/

namespace Firebird
namespace TempSpace

/-- `Segment`. -/
structure Segment where
  position : Nat
  size : Nat
  deriving DecidableEq, Repr

/-- The items before a key, with `locate`. -/
def before (segments : List Segment) (key : Nat) : List Segment :=
  segments.takeWhile fun segment => decide (segment.position < key)

/-- The items from a key on, with `locate`. -/
def behind (segments : List Segment) (key : Nat) : List Segment :=
  segments.dropWhile fun segment => decide (segment.position < key)

/-- The loop of `allocateSpace`: the first of the smallest segments with room, with its number. -/
def findBest (size : Nat) : List Segment → Nat → Option (Nat × Segment) → Option (Nat × Segment)
  | [], _, best => best
  | space :: rest, index, best =>
      findBest size rest (index + 1)
        (if size ≤ space.size ∧ best.all fun best => space.size < best.2.size then
          some (index, space)
        else best)

/-- The part of `allocateSpace` that takes the front of a free segment. -/
def takeFront (segments : List Segment) (index : Nat) (best : Segment) (size : Nat) :
    List Segment :=
  let segments := segments.set index ⟨best.position + size, best.size - size⟩
  if best.size - size = 0 then
    before segments (best.position + size) ++ (behind segments (best.position + size)).drop 1
  else segments

/-- `freeSegments.add`, for a key that is not there. -/
def add (segments : List Segment) (segment : Segment) : List Segment :=
  match behind segments segment.position with
  | other :: rest =>
      if other.position = segment.position then segments
      else before segments segment.position ++ segment :: other :: rest
  | [] => segments ++ [segment]

/-- The end of `releaseSpace`, when no free segment follows. -/
def joinPrior (segments : List Segment) (position size : Nat) : List Segment :=
  match (before segments position).getLast? with
  | some prior =>
      if position = prior.position + prior.size then
        (before segments position).dropLast ++
          ⟨prior.position, prior.size + size⟩ :: behind segments position
      else add segments ⟨position, size⟩
  | none => add segments ⟨position, size⟩

/-- `TempSpace::releaseSpace`. -/
def releaseSpace (segments : List Segment) (position size : Nat) : List Segment :=
  match behind segments (position + size) with
  | next :: rest =>
      if next.position = position + size then
        let front := before segments (position + size)
        let next : Segment := ⟨next.position - size, next.size + size⟩
        match front.getLast? with
        | some prior =>
            if position = prior.position + prior.size then
              front.dropLast ++ ⟨next.position - prior.size, next.size + prior.size⟩ :: rest
            else front ++ next :: rest
        | none => front ++ next :: rest
      else joinPrior segments position size
  | [] => joinPrior segments position size

/-! ## What the segments cover -/

/-- The position is in the segment. -/
def Segment.Holds (segment : Segment) (position : Nat) : Prop :=
  segment.position ≤ position ∧ position < segment.position + segment.size

/-- The position is in one of the segments. -/
def Covers (segments : List Segment) (position : Nat) : Prop :=
  ∃ segment ∈ segments, segment.Holds position

/-- Segments in order, with something between them, none of them empty. -/
structure Separated (segments : List Segment) : Prop where
  apart : segments.Pairwise fun first second => first.position + first.size < second.position
  positive : ∀ segment ∈ segments, 0 < segment.size

theorem covers_append {front rest : List Segment} {position : Nat} :
    Covers (front ++ rest) position ↔ Covers front position ∨ Covers rest position := by
  simp only [Covers, List.mem_append, or_and_right, exists_or]

theorem covers_cons {segment : Segment} {rest : List Segment} {position : Nat} :
    Covers (segment :: rest) position ↔ segment.Holds position ∨ Covers rest position := by
  simp only [Covers, List.mem_cons, exists_eq_or_imp]

theorem not_covers_nil (position : Nat) : ¬Covers [] position := by
  rintro ⟨segment, member, -⟩
  cases member

theorem separated_append {front rest : List Segment} :
    Separated (front ++ rest) ↔ Separated front ∧ Separated rest ∧
      ∀ first ∈ front, ∀ second ∈ rest, first.position + first.size < second.position := by
  constructor
  · rintro ⟨apart, positive⟩
    obtain ⟨front_apart, rest_apart, between⟩ := List.pairwise_append.mp apart
    exact ⟨⟨front_apart, fun segment member => positive segment (List.mem_append_left _ member)⟩,
      ⟨rest_apart, fun segment member => positive segment (List.mem_append_right _ member)⟩, between⟩
  · rintro ⟨front_separated, rest_separated, between⟩
    refine ⟨List.pairwise_append.mpr ⟨front_separated.apart, rest_separated.apart, between⟩, ?_⟩
    intro segment member
    exact (List.mem_append.mp member).elim (front_separated.positive segment)
      (rest_separated.positive segment)

theorem separated_cons {segment : Segment} {rest : List Segment} :
    Separated (segment :: rest) ↔ 0 < segment.size ∧ Separated rest ∧
      ∀ second ∈ rest, segment.position + segment.size < second.position := by
  have single : Separated [segment] ↔ 0 < segment.size :=
    ⟨fun separated => separated.positive segment (List.mem_singleton_self _),
      fun positive => ⟨List.pairwise_singleton _ _, fun other member =>
        List.mem_singleton.mp member ▸ positive⟩⟩
  rw [← List.singleton_append, separated_append, single]
  simp only [List.mem_singleton, forall_eq]

/-- The items before and behind a key. -/
theorem Separated.split {segments : List Segment} (separated : Separated segments) (key : Nat) :
    segments = before segments key ++ behind segments key ∧
      (∀ segment ∈ before segments key, segment.position < key) ∧
      ∀ segment ∈ behind segments key, key ≤ segment.position := by
  refine ⟨(List.takeWhile_append_dropWhile).symm, fun segment member => ?_, ?_⟩
  · rw [before] at member
    exact of_decide_eq_true (List.mem_takeWhile_imp
      (p := fun segment : Segment => decide (segment.position < key)) member)
  · have apart := separated.apart
    have split_eq : segments = before segments key ++ behind segments key :=
      (List.takeWhile_append_dropWhile).symm
    rw [split_eq, List.pairwise_append] at apart
    intro segment member
    cases rest_eq : behind segments key with
    | nil =>
        rw [rest_eq] at member
        cases member
    | cons first rest =>
        have first_ge : key ≤ first.position := by
          have stops := List.head?_dropWhile_not
            (fun segment : Segment => decide (segment.position < key)) segments
          rw [behind] at rest_eq
          rw [rest_eq] at stops
          simpa using stops
        rw [rest_eq] at member apart
        rcases List.mem_cons.mp member with rfl | later
        · exact first_ge
        · have after_first := (List.pairwise_cons.mp apart.2.1).1 segment later
          omega

/-! ## Taking and giving back -/

variable {segments front rest : List Segment} {size position : Nat} {best : Segment}

/-- The segment that is taken is one of the smallest with room. -/
structure IsBest (segments : List Segment) (size index : Nat) (best : Segment) : Prop where
  there : segments[index]? = some best
  room : size ≤ best.size
  smallest : ∀ segment ∈ segments, size ≤ segment.size → best.size ≤ segment.size

theorem findBest_spec (rest : List Segment) {front : List Segment} {found : Option (Nat × Segment)}
    (so_far : match found with
      | none => ∀ segment ∈ front, segment.size < size
      | some best => IsBest front size best.1 best.2) :
    match findBest size rest front.length found with
    | none => ∀ segment ∈ front ++ rest, segment.size < size
    | some best => IsBest (front ++ rest) size best.1 best.2 := by
  induction rest generalizing front found with
  | nil =>
      rw [findBest, List.append_nil]
      exact so_far
  | cons space rest ih =>
      rw [findBest]
      have later := @ih (front ++ [space])
        (if size ≤ space.size ∧ found.all fun best => space.size < best.2.size then
          some (front.length, space) else found) ?_
      · rwa [List.length_append, List.length_singleton, List.append_assoc,
          List.singleton_append] at later
      · split
        · rename_i none_eq
          split_ifs at none_eq with better
          subst none_eq
          intro segment member
          rcases List.mem_append.mp member with earlier | last
          · exact so_far segment earlier
          · obtain rfl := List.mem_singleton.mp last
            by_contra large
            exact better ⟨Nat.not_lt.mp large, rfl⟩
        · rename_i chosen some_eq
          split_ifs at some_eq with better
          · obtain rfl := Option.some.inj some_eq
            refine ⟨List.getElem?_concat_length, better.1, fun segment member large => ?_⟩
            rcases List.mem_append.mp member with earlier | last
            · cases found with
              | none => exact absurd (so_far segment earlier) (Nat.not_lt.mpr large)
              | some best =>
                  have less : space.size < best.2.size := of_decide_eq_true better.2
                  exact le_trans less.le (so_far.smallest segment earlier large)
            · exact (List.mem_singleton.mp last) ▸ Nat.le_refl _
          · subst some_eq
            have inside := (List.getElem?_eq_some_iff.mp so_far.there).1
            refine ⟨by rw [List.getElem?_append_left inside]; exact so_far.there, so_far.room, ?_⟩
            intro segment member large
            rcases List.mem_append.mp member with earlier | last
            · exact so_far.smallest segment earlier large
            · obtain rfl := List.mem_singleton.mp last
              by_contra smaller
              exact better ⟨large, decide_eq_true (Nat.not_le.mp smaller)⟩

/-- The front of a free segment is taken. -/
theorem takeFront_spec (separated : Separated (front ++ best :: rest)) (room : size ≤ best.size) :
    Separated (takeFront (front ++ best :: rest) front.length best size) ∧
      ∀ x, Covers (takeFront (front ++ best :: rest) front.length best size) x ↔
        Covers (front ++ best :: rest) x ∧ ¬(best.position ≤ x ∧ x < best.position + size) := by
  obtain ⟨front_separated, back_separated, between⟩ := separated_append.mp separated
  obtain ⟨positive, rest_separated, apart⟩ := separated_cons.mp back_separated
  have outside : ∀ x, Covers front x ∨ Covers rest x →
      ¬(best.position ≤ x ∧ x < best.position + best.size) := by
    rintro x (⟨segment, member, low, high⟩ | ⟨segment, member, low, high⟩) inside
    · have less := between segment member best List.mem_cons_self
      omega
    · have less := apart segment member
      omega
  have set_eq : (front ++ best :: rest).set front.length ⟨best.position + size, best.size - size⟩ =
      front ++ ⟨best.position + size, best.size - size⟩ :: rest := by
    rw [List.set_append_right _ _ (Nat.le_refl _), Nat.sub_self, List.set_cons_zero]
  rw [takeFront, set_eq]
  by_cases whole : best.size - size = 0
  · have front_before : ∀ segment ∈ front,
        decide (segment.position < best.position + size) = true := by
      intro segment member
      have less := between segment member best List.mem_cons_self
      exact decide_eq_true (by omega)
    rw [if_pos whole, before, behind, List.takeWhile_append_of_pos front_before,
      List.dropWhile_append_of_pos front_before, List.takeWhile_cons_of_neg (by simp),
      List.dropWhile_cons_of_neg (by simp), List.append_nil, List.drop_one, List.tail_cons]
    refine ⟨separated_append.mpr ⟨front_separated, rest_separated, fun first first_mem second
      second_mem => between first first_mem second (List.mem_cons_of_mem _ second_mem)⟩, fun x => ?_⟩
    rw [covers_append, covers_append, covers_cons, Segment.Holds]
    have apart_x := outside x
    have size_eq : size = best.size := by omega
    rw [size_eq]
    tauto
  · rw [if_neg whole]
    refine ⟨separated_append.mpr ⟨front_separated, separated_cons.mpr ⟨by dsimp only; omega,
      rest_separated, fun second second_mem => ?_⟩, fun first first_mem second second_mem => ?_⟩,
      fun x => ?_⟩
    · have less := apart second second_mem
      dsimp only
      omega
    · rcases List.mem_cons.mp second_mem with rfl | later
      · have less := between first first_mem best List.mem_cons_self
        dsimp only
        omega
      · exact between first first_mem second (List.mem_cons_of_mem _ later)
    · rw [covers_append, covers_append, covers_cons, covers_cons, Segment.Holds, Segment.Holds]
      have apart_x := outside x
      dsimp only
      by_cases others : Covers front x ∨ Covers rest x
      · have outside_x := apart_x others
        have not_taken : ¬(best.position ≤ x ∧ x < best.position + size) := by omega
        tauto
      · rw [not_or] at others
        simp only [others.1, others.2, false_or, or_false]
        omega

/-- What is given back is not free. -/
def Taken (segments : List Segment) (position size : Nat) : Prop :=
  ∀ x, position ≤ x → x < position + size → ¬Covers segments x

/-- The segments, with what was given back. -/
def Returned (segments after : List Segment) (position size : Nat) : Prop :=
  Separated after ∧
    ∀ x, Covers after x ↔ Covers segments x ∨ position ≤ x ∧ x < position + size

/-- A segment before the end of what is not free ends before it. -/
theorem Taken.ends_before (taken : Taken segments position size) (some_size : 0 < size)
    {segment : Segment} (member : segment ∈ segments) (positive : 0 < segment.size)
    (starts : segment.position < position + size) :
    segment.position + segment.size ≤ position := by
  by_contra beyond
  rcases Nat.le_total segment.position position with starts_before | starts_inside
  · exact taken position (Nat.le_refl _) (by omega) ⟨segment, member, starts_before, by omega⟩
  · exact taken segment.position starts_inside starts
      ⟨segment, member, Nat.le_refl _, by omega⟩

/-- A piece between segments, with its neighbours joined to it or apart from it. -/
theorem returned_piece {piece : Segment} {old new : List Segment}
    (separated : Separated (front ++ old ++ rest)) (positive : 0 < piece.size)
    (before_piece : ∀ segment ∈ front, segment.position + segment.size < piece.position)
    (behind_piece : ∀ segment ∈ rest, piece.position + piece.size < segment.position)
    (new_eq : new = front ++ piece :: rest)
    (holds : ∀ x, piece.Holds x ↔ Covers old x ∨ position ≤ x ∧ x < position + size) :
    Returned (front ++ old ++ rest) new position size := by
  obtain ⟨first_separated, rest_separated, between⟩ := separated_append.mp separated
  obtain ⟨front_separated, -, -⟩ := separated_append.mp first_separated
  subst new_eq
  refine ⟨separated_append.mpr ⟨front_separated, separated_cons.mpr ⟨positive, rest_separated,
    behind_piece⟩, fun first first_mem second second_mem => ?_⟩, fun x => ?_⟩
  · rcases List.mem_cons.mp second_mem with rfl | later
    · exact before_piece first first_mem
    · exact between first (List.mem_append_left _ first_mem) second later
  · rw [covers_append, covers_cons, covers_append, covers_append, holds]
    tauto

theorem covers_singleton {segment : Segment} {x : Nat} :
    Covers [segment] x ↔ segment.Holds x := by
  rw [covers_cons, or_iff_left (not_covers_nil x)]

/-- The end of `releaseSpace` joins what is given back with the segment before it. -/
theorem joinPrior_returns (separated : Separated segments) (positive : 0 < size)
    (taken : Taken segments position size)
    (apart : ∀ segment ∈ behind segments position, position + size < segment.position) :
    Returned segments (joinPrior segments position size) position size := by
  obtain ⟨split_eq, starts, -⟩ := separated.split position
  have ends : ∀ segment ∈ before segments position,
      segment.position + segment.size ≤ position := fun segment member =>
    taken.ends_before positive (split_eq ▸ List.mem_append_left _ member)
      (separated.positive segment (split_eq ▸ List.mem_append_left _ member))
      ((starts segment member).trans_le (Nat.le_add_right _ _))
  have added : (∀ segment ∈ before segments position,
      segment.position + segment.size ≠ position) →
      Returned segments (add segments ⟨position, size⟩) position size := by
    intro different
    have add_eq : add segments ⟨position, size⟩ =
        before segments position ++ ⟨position, size⟩ :: behind segments position := by
      rw [add]
      dsimp only
      split
      · rename_i other rest behind_eq
        have after := apart other (behind_eq ▸ List.mem_cons_self)
        rw [if_neg (by omega), behind_eq]
      · rename_i behind_eq
        rw [behind_eq, List.append_nil] at split_eq
        rw [behind_eq, ← split_eq]
    have whole : segments = before segments position ++ [] ++ behind segments position := by
      rw [List.append_nil, ← split_eq]
    have returned := @returned_piece _ _ size position ⟨position, size⟩ [] _
      (whole ▸ separated) positive
      (fun segment member => lt_of_le_of_ne (ends segment member) (different segment member)) apart
      add_eq (fun x => by rw [Segment.Holds, or_iff_right (not_covers_nil x)])
    rwa [← whole] at returned
  rw [joinPrior]
  split
  · rename_i prior last_eq
    obtain ⟨front, front_eq⟩ := List.getLast?_eq_some_iff.mp last_eq
    have whole : segments = front ++ [prior] ++ behind segments position := by
      rw [← front_eq, ← split_eq]
    have prior_mem : prior ∈ before segments position := front_eq ▸ List.mem_concat_self
    have prior_end := ends prior prior_mem
    have front_apart : ∀ segment ∈ front, segment.position + segment.size < prior.position := by
      have first_separated := (separated_append.mp (whole ▸ separated)).1
      exact fun segment member => (separated_append.mp first_separated).2.2 segment member prior
        (List.mem_singleton_self _)
    split
    · rename_i joined
      have returned := @returned_piece front _ size position ⟨prior.position, prior.size + size⟩
        [prior] _ (whole ▸ separated) (by dsimp only; omega) front_apart
        (fun segment member => by
          have after := apart segment member
          dsimp only
          omega)
        rfl (fun x => by
          rw [covers_singleton, Segment.Holds, Segment.Holds]
          dsimp only
          omega)
      rw [← whole] at returned
      rwa [front_eq, List.dropLast_concat]
    · rename_i not_joined
      refine added fun segment member => ?_
      rw [front_eq] at member
      rcases List.mem_append.mp member with earlier | last
      · have less := front_apart segment earlier
        omega
      · obtain rfl := List.mem_singleton.mp last
        exact Ne.symm not_joined
  · rename_i last_eq
    rw [List.getLast?_eq_none_iff] at last_eq
    exact added fun segment member => by
      rw [last_eq] at member
      cases member

/-- `releaseSpace` gives the segment back and keeps the free segments apart. -/
theorem releaseSpace_returns (separated : Separated segments) (positive : 0 < size)
    (taken : Taken segments position size) :
    Returned segments (releaseSpace segments position size) position size := by
  obtain ⟨split_eq, starts, reaches⟩ := separated.split (position + size)
  have front_mem : ∀ segment ∈ before segments (position + size), segment ∈ segments :=
    fun segment member => split_eq ▸ List.mem_append_left _ member
  have ends : ∀ segment ∈ before segments (position + size),
      segment.position + segment.size ≤ position := fun segment member =>
    taken.ends_before positive (front_mem segment member)
      (separated.positive segment (front_mem segment member)) (starts segment member)
  have alone : (∀ next ∈ (behind segments (position + size)).head?,
      next.position ≠ position + size) →
      Returned segments (joinPrior segments position size) position size := by
    intro no_next
    refine joinPrior_returns separated positive taken fun segment member => ?_
    obtain ⟨prior_split, -, prior_reaches⟩ := separated.split position
    have inside : segment ∈ segments := prior_split ▸ List.mem_append_right _ member
    have from_start := prior_reaches segment member
    have not_empty := separated.positive segment inside
    rw [split_eq] at inside
    rcases List.mem_append.mp inside with earlier | later
    · have ended := ends segment earlier
      omega
    · cases behind_eq : behind segments (position + size) with
      | nil =>
          rw [behind_eq] at later
          cases later
      | cons next rest =>
          rw [behind_eq] at no_next later
          have next_reaches := reaches next (behind_eq ▸ List.mem_cons_self)
          have different := no_next next rfl
          rcases List.mem_cons.mp later with rfl | further
          · omega
          · rw [split_eq, behind_eq] at separated
            have after_next := (separated_cons.mp (separated_append.mp separated).2.1).2.2 segment
              further
            omega
  rw [releaseSpace]
  split
  · rename_i next rest behind_eq
    split
    · rename_i adjacent
      rw [behind_eq] at split_eq
      have rest_apart : ∀ segment ∈ rest, next.position + next.size < segment.position := by
        rw [split_eq] at separated
        exact (separated_cons.mp (separated_append.mp separated).2.1).2.2
      have not_joined : (∀ segment ∈ before segments (position + size),
          segment.position + segment.size ≠ position) →
          Returned segments (before segments (position + size) ++
            ⟨next.position - size, next.size + size⟩ :: rest) position size := by
        intro different
        have whole : segments = before segments (position + size) ++ [next] ++ rest := by
          rw [List.append_assoc, List.singleton_append, ← split_eq]
        have returned := @returned_piece _ rest size position
          ⟨next.position - size, next.size + size⟩ [next] _ (whole ▸ separated)
          (by dsimp only; omega)
          (fun segment member => by
            have ended := ends segment member
            have other := different segment member
            dsimp only
            omega)
          (fun segment member => by
            have after_next := rest_apart segment member
            dsimp only
            omega)
          rfl (fun x => by
            rw [covers_singleton, Segment.Holds, Segment.Holds]
            dsimp only
            omega)
        rwa [← whole] at returned
      dsimp only
      split
      · rename_i prior last_eq
        obtain ⟨front, front_eq⟩ := List.getLast?_eq_some_iff.mp last_eq
        have whole : segments = front ++ [prior, next] ++ rest := by
          rw [split_eq, front_eq, List.append_assoc, List.append_assoc]
          rfl
        have prior_end := ends prior (front_eq ▸ List.mem_concat_self)
        have front_apart : ∀ segment ∈ front,
            segment.position + segment.size < prior.position := by
          have first_separated := (separated_append.mp (whole ▸ separated)).1
          exact fun segment member => (separated_append.mp first_separated).2.2 segment member prior
            List.mem_cons_self
        split
        · rename_i joined
          have returned := @returned_piece front rest size position
            ⟨next.position - size - prior.size, next.size + size + prior.size⟩ [prior, next] _
            (whole ▸ separated) (by dsimp only; omega)
            (fun segment member => by
              have less := front_apart segment member
              dsimp only
              omega)
            (fun segment member => by
              have after_next := rest_apart segment member
              dsimp only
              omega)
            rfl (fun x => by
              rw [covers_cons, covers_singleton, Segment.Holds, Segment.Holds, Segment.Holds]
              dsimp only
              omega)
          rw [← whole] at returned
          rwa [front_eq, List.dropLast_concat]
        · rename_i different
          refine not_joined fun segment member => ?_
          rw [front_eq] at member
          rcases List.mem_append.mp member with earlier | last
          · have less := front_apart segment earlier
            omega
          · obtain rfl := List.mem_singleton.mp last
            exact Ne.symm different
      · rename_i last_eq
        rw [List.getLast?_eq_none_iff] at last_eq
        refine not_joined fun segment member => ?_
        rw [last_eq] at member
        cases member
    · rename_i different
      exact alone fun other is_next => by
        rw [behind_eq] at is_next
        exact Option.some.inj is_next ▸ different
  · rename_i behind_eq
    exact alone fun other is_next => by
      rw [behind_eq] at is_next
      cases is_next

end TempSpace
end Firebird
