import Firebird.Jrd.Dpm.LineOps

/-!
# Runs of operations on a data page

The areas stay a layout and the other records keep their bytes in every sequence of operations that
never fragments the unpadded stub of a deleted record; `fragment` is then always given the space of a
fragmented record header.
-/

namespace Firebird
namespace LineArea

/-- A data page and the lines whose fragmentation is not finished, with the space they were given. -/
structure World where
  page : Page
  pending : List (Nat × Nat)

/-- The operations on a data page. -/
inductive Event where
  /-- `DPM_store` on this page. -/
  | store (reserving : Bool) (record : Record)
  /-- `store_big_record` with its front part on this page. -/
  | storeFront (reserving : Bool) (header packed : List UInt8)
  /-- `DPM_update`, with the first part of `fragment` when the record does not fit. -/
  | update (line : Nat) (record : Record) (claim : Claim)
  /-- The second part of `fragment`. -/
  | fillFragment (line given : Nat) (patch : List (Nat × UInt8)) (packed : List UInt8)
  | chain (line : Nat) (record : Record)
  | backout (line back : Nat)
  | delete (line : Nat)
  deriving DecidableEq, Repr

/-- The limit that `fragment` passes to `pack`, computed in 32 bits. -/
def packLimit (given : Nat) : Nat :=
  if rhdfSize ≤ given then given - rhdfSize else 2 ^ 32 - (rhdfSize - given)

namespace World

/-- The page after a call of `find_space`, or the page as it was. -/
def placed (pageSize : Nat) (page : Page) (reserving : Bool) (image : List UInt8) : Page :=
  match findSpace pageSize page reserving image with
  | some (after, _) => after
  | none => page

/-- The page after an operation. -/
def step (pageSize : Nat) (world : World) : Event → World
  | .store reserving record =>
      { world with page := placed pageSize world.page reserving record.padded }
  | .storeFront reserving header packed =>
      { world with page := placed pageSize world.page reserving (header ++ packed) }
  | .update line record claim =>
      match LineArea.update pageSize world.page line record claim with
      | .stored page => { world with page := page }
      | .fragmented page given => { page := page, pending := (line, given.toNat) :: world.pending }
  | .fillFragment line given patch packed =>
      { page := LineArea.fillFragment world.page line patch packed
        pending := world.pending.erase (line, given) }
  | .chain line record =>
      match LineArea.chain pageSize world.page line record with
      | some (page, _) => { world with page := page }
      | none => world
  | .backout line back => { world with page := LineArea.backout world.page line back }
  | .delete line => { world with page := LineArea.delete world.page line }

end World

/-- The line holds a record. -/
def Page.Holds (page : Page) (line : Nat) (held : Line) : Prop :=
  page.lines[line]? = some held ∧ held.offset ≠ 0

/-- A header of `RHD_SIZE` or `RHDE_SIZE` bytes. -/
def Record.WellFormed (record : Record) : Prop :=
  record.header.length = 13 ∨ record.header.length = 16

/-- What the callers keep to: the lines they name hold records, and a fragmentation is finished at the
line that it was begun at. -/
def Legal (world : World) : Event → Prop
  | .store _ record => record.WellFormed
  | .storeFront _ header _ => header.length = rhdfSize
  | .update line record claim =>
      record.WellFormed ∧ (∃ held, world.page.Holds line held) ∧
        ∀ field ∈ claim.patch, field.1 < rhdfSize
  | .fillFragment line given patch packed =>
      (line, given) ∈ world.pending ∧
        (∃ held, world.page.Holds line held ∧ held.length = given) ∧
        (∀ field ∈ patch, field.1 < rhdfSize) ∧ packed.length ≤ packLimit given
  | .chain line record => record.WellFormed ∧ ∃ held, world.page.Holds line held
  | .backout line back =>
      line ≠ back ∧ (∃ held, world.page.Holds line held) ∧ ∃ held, world.page.Holds back held
  | .delete line => ∃ held, world.page.Holds line held

/-- An unpadded stub is only updated by a record that fits on the page. -/
def Careful (pageSize : Nat) (world : World) : Event → Prop
  | .update line record _ =>
      ∀ held, world.page.Holds line held → held.stub = true →
        highWater world.page.lines.length + occupied (emptied world.page line held).lines +
          roundup record.padded.length ≤ pageSize
  | _ => True

/-- The lines that an operation is about. -/
def Event.targets : Event → List Nat
  | .store _ _ | .storeFront _ _ _ => []
  | .update line _ _ | .fillFragment line _ _ _ | .chain line _ | .delete line => [line]
  | .backout line back => [line, back]

/-- `fragment` is given the space of a fragmented record header when the operation enters it. -/
def FragmentRoom (pageSize : Nat) (world : World) : Event → Prop
  | .update line record claim =>
      ∀ after given, update pageSize world.page line record claim = .fragmented after given →
        (rhdfSize : Int) ≤ given
  | _ => True

/-- A condition that every operation of a sequence meets on the page it happens to. -/
def Throughout (pageSize : Nat) (condition : World → Event → Prop) : World → List Event → Prop
  | _, [] => True
  | world, event :: events =>
      condition world event ∧ Throughout pageSize condition (world.step pageSize event) events

/-- The areas are a layout before and after every operation, the other records keep their bytes, and
`fragment` has room. -/
def Upheld (pageSize : Nat) : World → List Event → Prop
  | world, [] => Layout pageSize world.page.lines
  | world, event :: events =>
      Layout pageSize world.page.lines ∧
        (∀ index, index ∉ event.targets →
          Keeps world.page (world.step pageSize event).page index) ∧
        FragmentRoom pageSize world event ∧ Upheld pageSize (world.step pageSize event) events

/-- The areas of a data page are kept by every sequence of operations. -/
def AreasKept : Prop :=
  ∀ (pageSize : Nat) (world : World) (events : List Event), pageSize % 4 = 0 →
    Layout pageSize world.page.lines → world.pending = [] →
      Throughout pageSize Legal world events → Upheld pageSize world events

section Runs

variable {pageSize : Nat} {world : World}

theorem Keeps.refl (page : Page) (index : Nat) : Keeps page page index :=
  fun line at_index used => ⟨line.offset, used, at_index, fun _ _ => rfl⟩

theorem placed_kept (page_mod : pageSize % 4 = 0) {page : Page}
    (layout : Layout pageSize page.lines) (reserving : Bool) {image : List UInt8}
    (large : rhdfSize ≤ image.length) :
    Kept pageSize page (World.placed pageSize page reserving image) [] := by
  unfold World.placed
  split
  · rename_i found
    exact findSpace_kept page_mod layout large found
  · exact ⟨layout, fun index _ => Keeps.refl page index⟩

theorem Record.WellFormed.header {record : Record} (formed : record.WellFormed) :
    13 ≤ record.header.length := by
  rcases formed with short | long <;> omega

/-- One operation keeps the layout, the other records and the space of the pending fragments. -/
theorem step_kept (page_mod : pageSize % 4 = 0) (layout : Layout pageSize world.page.lines)
    (pending : ∀ entry ∈ world.pending, rhdfSize ≤ entry.2) {event : Event}
    (legal : Legal world event) (careful : Careful pageSize world event) :
    Kept pageSize world.page (world.step pageSize event).page event.targets ∧
      (∀ entry ∈ (world.step pageSize event).pending, rhdfSize ≤ entry.2) ∧
      FragmentRoom pageSize world event := by
  cases event with
  | store reserving record =>
      exact ⟨placed_kept page_mod layout reserving record.le_padded_length, pending, trivial⟩
  | storeFront reserving header packed =>
      have header_length : header.length = rhdfSize := legal
      refine ⟨placed_kept page_mod layout reserving ?_, pending, trivial⟩
      rw [List.length_append]
      omega
  | update line record claim =>
      obtain ⟨formed, ⟨held, found, used⟩, inside⟩ := legal
      rcases update_kept page_mod layout found used inside (careful held ⟨found, used⟩) with
        ⟨after, result, kept⟩ | ⟨after, given, result, claimed⟩
      · have room : FragmentRoom pageSize world (.update line record claim) := by
          intro other given other_result
          rw [result] at other_result
          cases other_result
        simp only [World.step, result]
        exact ⟨kept, pending, room⟩
      · have room : FragmentRoom pageSize world (.update line record claim) := by
          intro other other_given other_result
          rw [result] at other_result
          cases other_result
          exact claimed.large
        simp only [World.step, result]
        refine ⟨claimed.kept, fun entry mem => ?_, room⟩
        rcases List.mem_cons.mp mem with rfl | mem
        · have large := claimed.large
          dsimp only
          omega
        · exact pending entry mem
  | fillFragment line given patch packed =>
      obtain ⟨is_pending, ⟨held, ⟨found, used⟩, length_eq⟩, inside, fits⟩ := legal
      have large : rhdfSize ≤ given := pending _ is_pending
      rw [packLimit, if_pos large, ← length_eq] at fits
      rw [← length_eq] at large
      exact ⟨fillFragment_kept layout found used large inside fits,
        fun entry mem => pending entry (List.mem_of_mem_erase mem), trivial⟩
  | chain line record =>
      obtain ⟨formed, held, found, used⟩ := legal
      cases result : LineArea.chain pageSize world.page line record with
      | none =>
          simp only [World.step, result]
          exact ⟨⟨layout, fun index _ => Keeps.refl world.page index⟩, pending, trivial⟩
      | some chained =>
          obtain ⟨after, slot⟩ := chained
          simp only [World.step, result]
          exact ⟨chain_kept page_mod layout found used formed.header result, pending, trivial⟩
  | backout line back =>
      obtain ⟨different, ⟨held, found, -⟩, old, at_back, used⟩ := legal
      exact ⟨backout_kept layout found at_back used different, pending, trivial⟩
  | delete line => exact ⟨delete_kept layout, pending, trivial⟩

/-- In every sequence of operations that never fragments an unpadded stub, the areas stay a layout,
the other records keep their bytes and `fragment` has room. -/
theorem upheld_of_careful (page_mod : pageSize % 4 = 0)
    (layout : Layout pageSize world.page.lines)
    (pending : ∀ entry ∈ world.pending, rhdfSize ≤ entry.2) {events : List Event}
    (legal : Throughout pageSize Legal world events)
    (careful : Throughout pageSize (Careful pageSize) world events) :
    Upheld pageSize world events := by
  induction events generalizing world with
  | nil => exact layout
  | cons event events inductive_hypothesis =>
      obtain ⟨kept, pending_after, room⟩ := step_kept page_mod layout pending legal.1 careful.1
      exact ⟨layout, kept.others, room,
        inductive_hypothesis kept.layout pending_after legal.2 careful.2⟩

end Runs

/-- A page of 4096 bytes with a record of 22 bytes and one that leaves 20 bytes free. -/
def nearlyFull : World where
  page :=
    { lines := [{ offset := 4072, length := 22, stub := false },
        { offset := 52, length := 4020, stub := false }]
      bytes := fun _ => 0 }
  pending := []

theorem nearlyFull_layout : Layout 4096 nearlyFull.page.lines := by
  refine ⟨⟨by decide, by decide, ?_, ?_⟩, ?_⟩
  · intro line mem used
    rcases List.mem_cons.mp mem with rfl | mem
    · exact ⟨by decide, by decide⟩
    · rw [List.mem_singleton.mp mem]
      exact ⟨by decide, by decide⟩
  · intro i j first second different at_first at_second _ _
    match i, j with
    | 0, 0 => exact absurd rfl different
    | 0, 1 =>
        cases at_first
        cases at_second
        exact .inr (by decide)
    | 1, 0 =>
        cases at_first
        cases at_second
        exact .inl (by decide)
    | 1, 1 => exact absurd rfl different
    | i + 2, _ => cases at_first
    | _, j + 2 => cases at_second
  · intro line mem
    rcases List.mem_cons.mp mem with rfl | mem
    · exact ⟨fun _ => by contradiction, fun _ => by decide, fun _ _ => by decide⟩
    · rw [List.mem_singleton.mp mem]
      exact ⟨fun _ => by contradiction, fun _ => by decide, fun _ _ => by decide⟩

/-- The deleted stub of a record without data. -/
def deletedStub : Record := { header := List.replicate 13 0, packed := [], deleted := true }

/-- A record of 33 bytes. -/
def smallRecord : Record :=
  { header := List.replicate 13 0, packed := List.replicate 20 0, deleted := false }

/-- The first record is deleted with a stub on the page, and the stub is updated. -/
def stubUpdated : List Event := [.chain 0 deletedStub, .update 0 smallRecord (.stub [])]

theorem stubUpdated_legal : Throughout 4096 Legal nearlyFull stubUpdated :=
  ⟨⟨.inl rfl, _, rfl, by decide⟩, ⟨.inl rfl, ⟨_, rfl, by decide⟩, by simp [Claim.patch]⟩, trivial⟩

/-- `fragment` is given the 16 bytes of the stub. -/
theorem not_areasKept : ¬ AreasKept := by
  intro kept
  obtain ⟨-, -, -, -, -, room, -⟩ :=
    kept 4096 nearlyFull stubUpdated rfl nearlyFull_layout rfl stubUpdated_legal
  have given := room _ 16 rfl
  exact absurd given (by decide)

/-- The second record is updated, and its version chained, as long as they fit. -/
def recordsUpdated : List Event :=
  [.update 1 smallRecord (.keep []), .chain 1 smallRecord, .chain 0 deletedStub, .backout 0 3]

theorem recordsUpdated_upheld : Upheld 4096 nearlyFull recordsUpdated := by
  have not_stub : Careful 4096 nearlyFull (.update 1 smallRecord (.keep [])) := by
    intro held at_line is_stub
    rw [← Option.some.inj at_line.1] at is_stub
    cases is_stub
  exact upheld_of_careful rfl nearlyFull_layout (by simp [nearlyFull])
    ⟨⟨.inl rfl, ⟨_, rfl, by decide⟩, by simp [Claim.patch]⟩, ⟨.inl rfl, _, rfl, by decide⟩,
      ⟨.inl rfl, _, rfl, by decide⟩, ⟨by decide, ⟨_, rfl, by decide⟩, _, rfl, by decide⟩, trivial⟩
    ⟨not_stub, trivial, trivial, trivial, trivial⟩

end LineArea
end Firebird
