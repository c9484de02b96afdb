import Firebird.Jrd.TempSpace.FreeSegments

/-!
# Runs of a temporary space

Whatever blocks hold it, a space is one flat array of bytes together with the positions that somebody
has: reads return what was written last, and space is given out in the smallest hole with room.
-/

namespace Firebird
namespace TempSpace

/-- A `TempSpace` with its tree of free segments. -/
structure Store where
  space : Space
  freeSegments : List Segment
  deriving Repr

/-- The calls of its users. -/
inductive Call where
  | write (offset : Nat) (data : List UInt8)
  | read (offset length : Nat)
  | allocateSpace (size : Nat)
  | releaseSpace (position size : Nat)
  deriving DecidableEq, Repr

inductive Result where
  | done
  | bytes (data : List UInt8)
  | position (position : Nat)
  deriving DecidableEq, Repr

/-- A space before its first call. -/
def Store.fresh (initiallyDynamic : Bool) : Store :=
  ⟨⟨0, 0, 0, [], [], [], initiallyDynamic⟩, []⟩

/-- `TempSpace::allocateSpace`, unless there is no room for a block. -/
def allocateSpace (around : Surroundings) (store : Store) (size : Nat) : Option (Nat × Store) :=
  match findBest size store.freeSegments 0 none with
  | some (index, best) =>
      some (best.position,
        { store with freeSegments := takeFront store.freeSegments index best size })
  | none =>
      match extend around store.space size with
      | .done space => some (space.logicalSize - size, { store with space := space })
      | .outOfTempSpace _ => none

/-- One call, unless it raises `isc_out_of_temp_space`. -/
def step (around : Surroundings) (store : Store) : Call → Option (Result × Store)
  | .write offset data =>
      match write around store.space offset data with
      | .done space => some (.done, { store with space := space })
      | .outOfTempSpace _ => none
  | .read offset length => some (.bytes (read store.space offset length), store)
  | .allocateSpace size =>
      (allocateSpace around store size).map fun taken => (.position taken.1, taken.2)
  | .releaseSpace position size =>
      some (.done, { store with freeSegments := releaseSpace store.freeSegments position size })

/-- Calls one after the other, each with what surrounds it. -/
def run : Store → List (Surroundings × Call) → Option (List Result × Store)
  | store, [] => some ([], store)
  | store, (around, call) :: calls =>
      (step around store call).bind fun first =>
        (run first.2 calls).map fun later => (first.1 :: later.1, later.2)

/-- The longest data or segment of a call. -/
def Call.length : Call → Nat
  | .write _ data => data.length
  | .read _ length => length
  | .allocateSpace size => size
  | .releaseSpace _ size => size

/-- What a temporary space is for: bytes by their position, and the positions that somebody has. -/
structure Flat where
  size : Nat
  owned : Set Nat
  /-- The byte that was written last, if one was. -/
  written : Nat → Option UInt8

namespace Flat

def empty : Flat := ⟨0, ∅, fun _ => none⟩

variable (flat : Flat)

/-- The positions of a range that nobody has, as far as they go. -/
structure Hole (position size : Nat) : Prop where
  inside : position + size ≤ flat.size
  free : ∀ x, position ≤ x → x < position + size → x ∉ flat.owned
  starts : position = 0 ∨ position - 1 ∈ flat.owned
  ends : position + size = flat.size ∨ position + size ∈ flat.owned

/-- The assertions of the functions. -/
def Permits : Call → Prop
  | .write offset _ => offset ≤ flat.size
  | .read offset length => offset + length ≤ flat.size
  | .allocateSpace size => 0 < size
  | .releaseSpace position size =>
      0 < size ∧ ∀ x, position ≤ x → x < position + size → x ∈ flat.owned

/-- What a call may return. -/
def Allows : Call → Result → Prop
  | .write _ _, .done => True
  | .read offset length, .bytes data =>
      data.length = length ∧
        ∀ index < length, ∀ byte ∈ flat.written (offset + index), data[index]? = some byte
  | .allocateSpace size, .position position =>
      (∃ room, flat.Hole position room ∧ size ≤ room ∧
        ∀ other more, flat.Hole other more → size ≤ more → room ≤ more) ∨
      (position = flat.size ∧ ∀ other more, flat.Hole other more → more < size)
  | .releaseSpace _ _, .done => True
  | _, _ => False

/-- The array after a call. -/
def next : Call → Result → Flat
  | .write offset data, _ =>
      { size := max flat.size (offset + data.length)
        owned := flat.owned ∪ Set.Ico flat.size (offset + data.length)
        written := fun x =>
          if offset ≤ x ∧ x < offset + data.length then data[x - offset]? else flat.written x }
  | .allocateSpace size, .position position =>
      { flat with
        size := max flat.size (position + size)
        owned := flat.owned ∪ Set.Ico position (position + size) }
  | .releaseSpace position size, _ =>
      { flat with owned := flat.owned \ Set.Ico position (position + size) }
  | _, _ => flat

/-- Every call is one that the functions assert. -/
def Lawful : Flat → List Call → List Result → Prop
  | flat, call :: calls, result :: results =>
      flat.Permits call ∧ Lawful (flat.next call result) calls results
  | _, _, _ => True

/-- Every call returns what the array has. -/
def Behaves : Flat → List Call → List Result → Prop
  | flat, call :: calls, result :: results =>
      flat.Allows call result ∧ Behaves (flat.next call result) calls results
  | _, [], [] => True
  | _, _, _ => False

/-- The array after all calls. -/
def final : Flat → List Call → List Result → Flat
  | flat, call :: calls, result :: results => final (flat.next call result) calls results
  | flat, _, _ => flat

end Flat

/-- The space is the array, and its free segments are the holes. -/
structure Couples (store : Store) (flat : Flat) : Prop where
  sound : Sound store.space
  size_eq : store.space.logicalSize = flat.size
  separated : Separated store.freeSegments
  covers : ∀ x, Covers store.freeSegments x ↔ x < flat.size ∧ x ∉ flat.owned
  owned_lt : ∀ x ∈ flat.owned, x < flat.size
  written : ∀ x, ∀ byte ∈ flat.written x, (contents store.space)[x]? = some byte

variable {store after : Store} {flat : Flat} {around : Surroundings}

theorem couples_fresh (initiallyDynamic : Bool) : Couples (.fresh initiallyDynamic) .empty where
  sound :=
    { physical := rfl, logical := Nat.le_refl _, inside := fun _ member => by cases member
      ordered := List.Pairwise.nil
      initial := .inl ⟨rfl, fun _ member => (by cases member), fun _ => .inl rfl⟩ }
  size_eq := rfl
  separated := ⟨List.Pairwise.nil, fun _ member => by cases member⟩
  covers x := ⟨fun covers => absurd covers (not_covers_nil x), fun inside => by cases inside.1⟩
  owned_lt _ member := by cases member
  written _ _ member := by cases member

/-! ## Free segments are holes -/

/-- A position next to a segment is in no other one. -/
theorem Separated.apart_holds {segments : List Segment} (separated : Separated segments)
    {segment other : Segment} (member : segment ∈ segments) (other_member : other ∈ segments)
    {x : Nat} (holds : other.Holds x) (near : segment.position ≤ x + 1)
    (near_end : x ≤ segment.position + segment.size) : other = segment := by
  obtain ⟨low, high⟩ := holds
  by_contra different
  obtain ⟨front, rest, rfl⟩ := List.append_of_mem member
  obtain ⟨-, back_separated, between⟩ := separated_append.mp separated
  obtain ⟨-, -, apart⟩ := separated_cons.mp back_separated
  rcases List.mem_append.mp other_member with earlier | later
  · have less := between other earlier segment List.mem_cons_self
    omega
  · rcases List.mem_cons.mp later with same | further
    · exact different same
    · have less := apart other further
      omega

theorem Couples.hole_of_mem (couples : Couples store flat) {segment : Segment}
    (member : segment ∈ store.freeSegments) : flat.Hole segment.position segment.size := by
  have positive := couples.separated.positive segment member
  have free : ∀ x, segment.position ≤ x → x < segment.position + segment.size →
      x < flat.size ∧ x ∉ flat.owned := fun x low high =>
    (couples.covers x).mp ⟨segment, member, low, high⟩
  have last := free (segment.position + segment.size - 1) (by omega) (by omega)
  have next_to : ∀ x, ¬segment.Holds x → segment.position ≤ x + 1 →
      x ≤ segment.position + segment.size → x < flat.size → x ∈ flat.owned := by
    intro x outside near near_end inside
    by_contra not_owned
    obtain ⟨other, other_member, holds⟩ := (couples.covers x).mpr ⟨inside, not_owned⟩
    have same := couples.separated.apart_holds member other_member holds near near_end
    exact outside (same ▸ holds)
  refine ⟨by omega, fun x low high => (free x low high).2, ?_, ?_⟩
  · rcases Nat.eq_zero_or_pos segment.position with zero | some_before
    · exact .inl zero
    · refine .inr (next_to _ (fun holds => ?_) (by omega) (by omega) (by omega))
      have low := holds.1
      omega
  · rcases Nat.lt_or_ge (segment.position + segment.size) flat.size with inside | outside
    · refine .inr (next_to _ (fun holds => ?_) (by omega) (Nat.le_refl _) inside)
      exact absurd holds.2 (Nat.lt_irrefl _)
    · exact .inl (by omega)

theorem Couples.mem_of_hole (couples : Couples store flat) {position size : Nat}
    (positive : 0 < size) (hole : flat.Hole position size) :
    ⟨position, size⟩ ∈ store.freeSegments := by
  have hole_inside := hole.inside
  obtain ⟨⟨start, length⟩, member, low, high⟩ := (couples.covers position).mpr
    ⟨by omega, hole.free position (Nat.le_refl _) (by omega)⟩
  have segment_hole := couples.hole_of_mem member
  have segment_inside := segment_hole.inside
  dsimp only at low high segment_hole segment_inside
  have start_eq : start = position := by
    by_contra different
    rcases hole.starts with zero | owned
    · omega
    · exact segment_hole.free (position - 1) (by omega) (by omega) owned
  have end_eq : start + length = position + size := by
    rcases Nat.lt_trichotomy (start + length) (position + size) with shorter | same | longer
    · rcases segment_hole.ends with last | owned
      · omega
      · exact absurd owned (hole.free _ (by omega) shorter)
    · exact same
    · rcases hole.ends with last | owned
      · omega
      · exact absurd owned (segment_hole.free _ (by omega) longer)
  obtain rfl := start_eq
  obtain rfl : length = size := by omega
  exact member

/-! ## One call -/

theorem Couples.write (couples : Couples store flat) (around_sound : around.Sound) {offset : Nat}
    {data : List UInt8} (fits : FitsBlock around data.length) (inside : offset ≤ flat.size)
    {space : Space} (done : write around store.space offset data = .done space) :
    Couples { store with space := space } (flat.next (.write offset data) .done) := by
  obtain ⟨sound, logical, grown, kept, room, contents_eq⟩ :=
    couples.sound.write around_sound fits (couples.size_eq ▸ inside) done
  refine ⟨sound, ?_, couples.separated, fun x => ?_, fun x owned => ?_, fun x byte written => ?_⟩
  · rw [logical, couples.size_eq]
    rfl
  · rw [couples.covers]
    simp only [Flat.next, Set.mem_union, Set.mem_Ico, lt_max_iff]
    have from_size := @Nat.not_lt x flat.size
    tauto
  · simp only [Flat.next, Set.mem_union, Set.mem_Ico, lt_max_iff] at owned ⊢
    exact owned.imp (couples.owned_lt x) And.right
  · simp only [Flat.next] at written
    dsimp only
    rw [contents_eq, getElem?_overwriteAt room]
    split_ifs at written ⊢ with here
    · exact written
    · obtain ⟨more, rfl⟩ := kept
      have there := couples.written x byte written
      rw [List.getElem?_append_left (List.getElem?_eq_some_iff.mp there).1]
      exact there

theorem Couples.read (couples : Couples store flat) {offset length : Nat}
    (inside : offset + length ≤ flat.size) :
    flat.Allows (.read offset length) (.bytes (read store.space offset length)) := by
  have length_eq := couples.sound.length_contents
  have logical := couples.sound.logical
  rw [couples.size_eq] at logical
  rw [couples.sound.read_eq (couples.size_eq ▸ inside)]
  refine ⟨by rw [List.length_take, List.length_drop]; omega, fun index before byte written => ?_⟩
  rw [List.getElem?_take_of_lt before, List.getElem?_drop]
  exact couples.written _ _ written

theorem Couples.allocateSpace (couples : Couples store flat) (around_sound : around.Sound)
    {size position : Nat} (positive : 0 < size) (fits : FitsBlock around size)
    (taken : allocateSpace around store size = some (position, after)) :
    flat.Allows (.allocateSpace size) (.position position) ∧
      Couples after (flat.next (.allocateSpace size) (.position position)) := by
  have best := @findBest_spec size store.freeSegments [] none fun _ member => by cases member
  rw [List.nil_append, List.length_nil] at best
  rw [TempSpace.allocateSpace] at taken
  generalize findBest size store.freeSegments 0 none = found at best taken
  cases found with
  | some best_found =>
      obtain ⟨index, segment⟩ := best_found
      obtain ⟨rfl, rfl⟩ := Prod.mk.inj (Option.some.inj taken)
      have best : IsBest store.freeSegments size index segment := best
      have member := List.mem_of_getElem? best.there
      have hole := couples.hole_of_mem member
      have hole_inside := hole.inside
      have room : size ≤ segment.size := best.room
      refine ⟨.inl ⟨segment.size, hole, room, fun other more other_hole large => ?_⟩, ?_⟩
      · exact best.smallest _ (couples.mem_of_hole (by omega) other_hole) large
      · obtain ⟨front, rest, split_eq, rfl⟩ : ∃ front rest,
            store.freeSegments = front ++ segment :: rest ∧ index = front.length := by
          obtain ⟨bound, value⟩ := List.getElem?_eq_some_iff.mp best.there
          refine ⟨store.freeSegments.take index, store.freeSegments.drop (index + 1), ?_,
            (List.length_take_of_le bound.le).symm⟩
          have value : store.freeSegments[index] = segment := value
          rw [← value, List.getElem_cons_drop, List.take_append_drop]
        have separated := couples.separated
        rw [split_eq] at separated
        obtain ⟨after_separated, after_covers⟩ := takeFront_spec separated room
        rw [← split_eq] at after_separated after_covers
        refine ⟨couples.sound, ?_, after_separated, fun x => ?_, fun x owned => ?_,
          couples.written⟩
        · rw [couples.size_eq]
          exact (Nat.max_eq_left (by omega)).symm
        · rw [after_covers, couples.covers]
          simp only [Flat.next, Set.mem_union, Set.mem_Ico]
          have size_eq : max flat.size (segment.position + size) = flat.size :=
            Nat.max_eq_left (by omega)
          rw [size_eq]
          tauto
        · simp only [Flat.next, Set.mem_union, Set.mem_Ico, lt_max_iff] at owned ⊢
          exact owned.imp (couples.owned_lt x) And.right
  | none =>
      dsimp only at taken
      split at taken
      · rename_i space extended
        obtain ⟨rfl, rfl⟩ := Prod.mk.inj (Option.some.inj taken)
        obtain ⟨sound, logical, kept⟩ := couples.sound.extend around_sound fits extended
        rw [couples.size_eq] at logical
        have position_eq : space.logicalSize - size = flat.size := by omega
        rw [position_eq]
        refine ⟨.inr ⟨rfl, fun other more hole => ?_⟩, sound, ?_, couples.separated, fun x => ?_,
          fun x owned => ?_, fun x byte written => ?_⟩
        · rcases Nat.eq_zero_or_pos more with zero | some_more
          · omega
          · exact best _ (couples.mem_of_hole some_more hole)
        · rw [logical]
          exact (Nat.max_eq_right (Nat.le_add_right _ _)).symm
        · rw [couples.covers]
          simp only [Flat.next, Set.mem_union, Set.mem_Ico, lt_max_iff]
          have from_size := @Nat.not_lt x flat.size
          tauto
        · simp only [Flat.next, Set.mem_union, Set.mem_Ico, lt_max_iff] at owned ⊢
          exact owned.imp (couples.owned_lt x) And.right
        · obtain ⟨more, kept⟩ := kept
          have there := couples.written x byte written
          rw [← kept, List.getElem?_append_left (List.getElem?_eq_some_iff.mp there).1]
          exact there
      · cases taken

theorem Couples.releaseSpace (couples : Couples store flat) {position size : Nat}
    (permits : flat.Permits (.releaseSpace position size)) :
    Couples { store with freeSegments := releaseSpace store.freeSegments position size }
      (flat.next (.releaseSpace position size) .done) := by
  obtain ⟨positive, owned⟩ := permits
  obtain ⟨separated, covers⟩ := releaseSpace_returns couples.separated positive
    fun x low high free => ((couples.covers x).mp free).2 (owned x low high)
  refine ⟨couples.sound, couples.size_eq, separated, fun x => ?_, fun x member => ?_,
    couples.written⟩
  · rw [covers, couples.covers]
    simp only [Flat.next, Set.mem_sdiff, Set.mem_Ico, not_and_or]
    have owned_lt := couples.owned_lt x
    have owned_x := owned x
    by_cases inside : position ≤ x ∧ x < position + size
    · have less := owned_lt (owned_x inside.1 inside.2)
      tauto
    · tauto
  · exact couples.owned_lt x member.1

/-- A call does what the array does. -/
theorem Couples.step (couples : Couples store flat) (around_sound : around.Sound) {call : Call}
    {result : Result} (fits : FitsBlock around call.length) (permits : flat.Permits call)
    (stepped : step around store call = some (result, after)) :
    flat.Allows call result ∧ Couples after (flat.next call result) := by
  cases call with
  | write offset data =>
      rw [TempSpace.step] at stepped
      split at stepped
      · rename_i space done
        obtain ⟨rfl, rfl⟩ := Prod.mk.inj (Option.some.inj stepped)
        exact ⟨trivial, couples.write around_sound fits permits done⟩
      · cases stepped
  | read offset length =>
      obtain ⟨rfl, rfl⟩ := Prod.mk.inj (Option.some.inj stepped)
      exact ⟨couples.read permits, couples⟩
  | allocateSpace size =>
      obtain ⟨⟨position, space⟩, taken, value⟩ := Option.map_eq_some_iff.mp stepped
      obtain ⟨rfl, rfl⟩ := Prod.mk.inj value
      exact couples.allocateSpace around_sound permits fits taken
  | releaseSpace position size =>
      obtain ⟨rfl, rfl⟩ := Prod.mk.inj (Option.some.inj stepped)
      exact ⟨trivial, couples.releaseSpace permits⟩

/-! ## Runs -/

theorem Couples.run (couples : Couples store flat) {calls : List (Surroundings × Call)}
    {results : List Result} (ran : run store calls = some (results, after))
    (fits : ∀ item ∈ calls, item.1.Sound ∧ FitsBlock item.1 item.2.length)
    (lawful : flat.Lawful (calls.map Prod.snd) results) :
    flat.Behaves (calls.map Prod.snd) results ∧
      Couples after (flat.final (calls.map Prod.snd) results) := by
  induction calls generalizing store flat results with
  | nil =>
      obtain ⟨rfl, rfl⟩ := Prod.mk.inj (Option.some.inj ran)
      exact ⟨trivial, couples⟩
  | cons item calls ih =>
      obtain ⟨around, call⟩ := item
      rw [TempSpace.run] at ran
      obtain ⟨⟨result, middle⟩, stepped, later⟩ := Option.bind_eq_some_iff.mp ran
      obtain ⟨⟨more, last⟩, ran_later, value⟩ := Option.map_eq_some_iff.mp later
      obtain ⟨rfl, rfl⟩ := Prod.mk.inj value
      obtain ⟨sound, fits_first⟩ := fits _ List.mem_cons_self
      obtain ⟨allows, couples⟩ := couples.step sound fits_first lawful.1 stepped
      obtain ⟨behaves, couples⟩ := ih couples ran_later
        (fun other member => fits other (List.mem_cons_of_mem _ member)) lawful.2
      exact ⟨⟨allows, behaves⟩, couples⟩

/-- The sizes of the segments are the positions that they cover. -/
theorem ncard_covers {segments : List Segment} (separated : Separated segments) :
    Set.ncard { x | Covers segments x } = (segments.map Segment.size).sum ∧
      Set.Finite { x | Covers segments x } := by
  induction segments with
  | nil =>
      have nothing : { x | Covers [] x } = ∅ :=
        Set.eq_empty_of_forall_notMem fun x => not_covers_nil x
      rw [nothing]
      exact ⟨Set.ncard_empty _, Set.finite_empty⟩
  | cons segment rest ih =>
      obtain ⟨positive, rest_separated, apart⟩ := separated_cons.mp separated
      obtain ⟨rest_card, rest_finite⟩ := ih rest_separated
      have split_eq : { x | Covers (segment :: rest) x } =
          ↑(Finset.Ico segment.position (segment.position + segment.size)) ∪
            { x | Covers rest x } := by
        ext x
        rw [Set.mem_union, Set.mem_ofPred_eq, covers_cons, Finset.mem_coe, Finset.mem_Ico]
        rfl
      have disjoint : Disjoint
          (↑(Finset.Ico segment.position (segment.position + segment.size)) : Set Nat)
          { x | Covers rest x } := by
        refine Set.disjoint_left.mpr fun x here => ?_
        rintro ⟨other, member, low, -⟩
        have less := apart other member
        rw [Finset.mem_coe, Finset.mem_Ico] at here
        omega
      rw [split_eq, Set.ncard_union_eq disjoint (Finset.finite_toSet _) rest_finite,
        Set.ncard_coe_finset, Nat.card_Ico, rest_card, Nat.add_sub_cancel_left, List.map_cons,
        List.sum_cons]
      exact ⟨rfl, (Finset.finite_toSet _).union rest_finite⟩

/-- In every run a temporary space behaves as the flat array, and its free segments are apart,
not empty and exactly what nobody has. -/
theorem run_behaves {initiallyDynamic : Bool} {calls : List (Surroundings × Call)}
    {results : List Result} {after : Store}
    (ran : run (.fresh initiallyDynamic) calls = some (results, after))
    (fits : ∀ item ∈ calls, item.1.Sound ∧ FitsBlock item.1 item.2.length)
    (lawful : Flat.empty.Lawful (calls.map Prod.snd) results) :
    Flat.empty.Behaves (calls.map Prod.snd) results ∧
      Separated after.freeSegments ∧
      (∀ x, Covers after.freeSegments x ↔ x < after.space.logicalSize ∧
        x ∉ (Flat.empty.final (calls.map Prod.snd) results).owned) ∧
      (after.freeSegments.map Segment.size).sum +
        (Flat.empty.final (calls.map Prod.snd) results).owned.ncard =
          after.space.logicalSize := by
  obtain ⟨behaves, couples⟩ := (couples_fresh initiallyDynamic).run ran fits lawful
  generalize Flat.empty.final (calls.map Prod.snd) results = flat at couples ⊢
  obtain ⟨free_card, free_finite⟩ := ncard_covers couples.separated
  have owned_finite : flat.owned.Finite :=
    (Set.finite_lt_nat flat.size).subset couples.owned_lt
  have disjoint : Disjoint { x | Covers after.freeSegments x } flat.owned :=
    Set.disjoint_left.mpr fun x free => ((couples.covers x).mp free).2
  have whole : { x | Covers after.freeSegments x } ∪ flat.owned = ↑(Finset.range flat.size) := by
    ext x
    rw [Set.mem_union, Set.mem_ofPred_eq, couples.covers, Finset.mem_coe, Finset.mem_range]
    have owned_lt := couples.owned_lt x
    tauto
  refine ⟨behaves, couples.separated, couples.size_eq ▸ couples.covers, ?_⟩
  rw [← free_card, ← Set.ncard_union_eq disjoint free_finite owned_finite, whole,
    Set.ncard_coe_finset, Finset.card_range, couples.size_eq]

/-- As much memory as is asked for. -/
def plenty : Surroundings where
  minBlockSize := 65536
  tempDirs := [1]
  isAllowed := fun _ => true
  newMemory := fun size => some (List.replicate size 0)
  newBytes := fun size => List.replicate size 0
  newFile := fun _ => true
  extendFile := fun _ _ => none

theorem plenty_sound : plenty.Sound where
  positive := by decide
  newMemory_length := fun size bytes allocated =>
    Option.some.inj allocated ▸ List.length_replicate
  newBytes_length := fun _ => List.length_replicate

/-- Two segments; the first one is given back, and its front taken again. -/
def fewCalls : List Call :=
  [.allocateSpace 4, .write 0 [1, 2, 3, 4], .allocateSpace 3, .write 5 [9], .releaseSpace 0 4,
    .allocateSpace 2, .read 0 7]

def fewResults : List Result :=
  [.position 0, .done, .position 4, .done, .done, .position 0, .bytes [1, 2, 3, 4, 0, 9, 0]]

def fewAfter : Store :=
  ⟨⟨7, 7, 0, [.initial 7], [], [1, 2, 3, 4, 0, 9, 0], true⟩, [⟨2, 2⟩]⟩

theorem fewCalls_behave :
    Flat.empty.Behaves ((fewCalls.map (plenty, ·)).map Prod.snd) fewResults ∧
      Separated fewAfter.freeSegments ∧
      (∀ x, Covers fewAfter.freeSegments x ↔ x < fewAfter.space.logicalSize ∧
        x ∉ (Flat.empty.final ((fewCalls.map (plenty, ·)).map Prod.snd) fewResults).owned) ∧
      (fewAfter.freeSegments.map Segment.size).sum +
        (Flat.empty.final ((fewCalls.map (plenty, ·)).map Prod.snd) fewResults).owned.ncard =
          fewAfter.space.logicalSize := by
  refine @run_behaves true (fewCalls.map (plenty, ·)) fewResults fewAfter rfl ?_ ?_
  · intro item member
    obtain ⟨call, among, rfl⟩ := List.mem_map.mp member
    refine ⟨plenty_sound, ?_⟩
    simp only [fewCalls, List.mem_cons, List.not_mem_nil, or_false] at among
    rcases among with rfl | rfl | rfl | rfl | rfl | rfl | rfl
    all_goals
      rw [FitsBlock]
      decide
  · refine ⟨show 0 < 4 by decide, Nat.zero_le _, show 0 < 3 by decide, show 5 ≤ 7 by decide,
      ⟨by decide, fun x low high => ?_⟩, show 0 < 2 by decide, show 0 + 7 ≤ 7 by decide, trivial⟩
    simp only [Flat.next, Flat.empty, Set.mem_union, Set.mem_Ico]
    omega

end TempSpace
end Firebird
