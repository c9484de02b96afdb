import Firebird.Jrd.Btr.IndexRoot

/-!
# Compression of the index root page

`compress_root` moves the descriptors of the built indexes to the end of the page, one behind the other.
Descriptors of an index that is being built stay where they are and are not taken into account.
-/

namespace Firebird
namespace IndexRoot

open ByteMemory (load store copy)

namespace Slot

variable {slot : Slot}

theorem isUsed_iff : slot.isUsed = true ↔ slot.inProgress = true ∨ slot.getRoot ≠ 0 := by
  rw [isUsed, getRoot]
  cases slot.inProgress with
  | true => exact iff_of_true rfl (.inl rfl)
  | false =>
      rw [Bool.false_or, decide_eq_true_iff, if_neg Bool.false_ne_true]
      exact ⟨.inr, fun used => used.resolve_left Bool.false_ne_true⟩

theorem getRoot_of_inProgress (building : slot.inProgress = true) : slot.getRoot = 0 :=
  if_pos building

theorem isUsed_of_root (built : slot.getRoot ≠ 0) : slot.isUsed = true := isUsed_iff.mpr (.inr built)

theorem getRoot_moved (slot : Slot) (place : Nat) :
    ({ slot with irt_desc := place } : Slot).getRoot = slot.getRoot := rfl

end Slot

theorem builtSize_cons (slot : Slot) (slots : List Slot) :
    builtSize (slot :: slots) =
      (if slot.getRoot ≠ 0 then slot.size else 0) + builtSize slots := by
  rw [builtSize, builtSize, List.filter_cons]
  by_cases built : slot.getRoot ≠ 0
  · rw [if_pos (decide_eq_true built), if_pos built, List.map_cons, List.sum_cons]
  · rw [if_neg (by rwa [decide_eq_true_iff]), if_neg built, Nat.zero_add]

/-- A slot after the compression: the descriptors of a built index have been moved. -/
def Moved (temp bytes : Nat → UInt8) (slot moved : Slot) : Prop :=
  slot.getRoot = 0 ∧ moved = slot ∨
    slot.getRoot ≠ 0 ∧ ∃ place, moved = { slot with irt_desc := place } ∧
      load bytes place slot.size = load temp slot.irt_desc slot.size

/-- What the loop leaves, from the addresses up to `high`. -/
structure Compressed (temp : Nat → UInt8) (slots : List Slot) (high : Nat) (bytes : Nat → UInt8)
    (result : List Slot × Nat × (Nat → UInt8)) : Prop where
  low_eq : result.2.1 = high - builtSize slots
  moved : slots.Forall₂ (Moved temp result.2.2) result.1
  within : ∀ slot ∈ result.1, slot.getRoot ≠ 0 → slot.area.Within result.2.1 high
  apart : result.1.Pairwise fun first second =>
    first.getRoot ≠ 0 → second.getRoot ≠ 0 → first.area.Apart second.area
  covers : ∀ address, result.2.1 ≤ address → address < high →
    ∃ slot ∈ result.1, slot.getRoot ≠ 0 ∧ slot.irt_desc ≤ address ∧
      address < slot.irt_desc + slot.size
  frame : ∀ address, address < result.2.1 ∨ high ≤ address → result.2.2 address = bytes address

theorem compressSlots_spec (temp : Nat → UInt8) (slots : List Slot) {high : Nat}
    {bytes : Nat → UInt8} (size_le : builtSize slots ≤ high) :
    Compressed temp slots high bytes (compressSlots temp slots high bytes) := by
  induction slots generalizing high bytes with
  | nil =>
      exact ⟨rfl, .nil, nofun, .nil,
        fun address above below => absurd (above.trans_lt below) (lt_irrefl _), fun _ _ => rfl⟩
  | cons slot slots ih =>
      rw [builtSize_cons] at size_le
      rw [compressSlots]
      by_cases built : slot.getRoot ≠ 0
      · rw [if_pos built] at size_le ⊢
        have rest := @ih (high - slot.size)
          (copy temp slot.irt_desc bytes (high - slot.size) slot.size) (by omega)
        dsimp only
        generalize compressSlots temp slots (high - slot.size)
          (copy temp slot.irt_desc bytes (high - slot.size) slot.size) = result at rest ⊢
        obtain ⟨moved, low, after⟩ := result
        obtain ⟨low_eq, moved, within, apart, covers, frame⟩ := rest
        dsimp only at low_eq moved within apart covers frame
        have head_end : high - slot.size + slot.size = high := by omega
        refine ⟨?_, .cons (.inr ⟨built, _, rfl, ?_⟩) moved, ?_, .cons ?_ apart, ?_, ?_⟩
        · rw [builtSize_cons, if_pos built, ← Nat.sub_sub]
          exact low_eq
        · have copied := @ByteMemory.load_copy_inside _ temp bytes slot.irt_desc (high - slot.size)
            slot.size 0 slot.size (Nat.zero_add _).le
          rw [Nat.add_zero, Nat.add_zero] at copied
          rw [← copied]
          exact ByteMemory.load_congr fun cell _ => frame _ (.inr (Nat.le_add_right _ _))
        · intro other member other_built
          rcases List.mem_cons.mp member with rfl | behind
          · exact ⟨low_eq.trans_le (Nat.sub_le _ _), head_end.le⟩
          · obtain ⟨above, below⟩ := within other behind other_built
            exact ⟨above, below.trans (Nat.sub_le _ _)⟩
        · intro other member _ other_built
          exact .inr (within other member other_built).2
        · intro address above below
          by_cases in_head : high - slot.size ≤ address
          · exact ⟨_, List.mem_cons_self, built, in_head, below.trans_eq head_end.symm⟩
          · obtain ⟨other, member, covered⟩ := covers address above (by omega)
            exact ⟨other, List.mem_cons_of_mem _ member, covered⟩
        · intro address outside
          dsimp only at outside ⊢
          rw [frame address (by omega), ByteMemory.copy_apart _ _ (by omega)]
      · rw [if_neg built, Nat.zero_add] at size_le
        rw [if_neg built]
        have rest := @ih high bytes size_le
        dsimp only
        generalize compressSlots temp slots high bytes = result at rest ⊢
        obtain ⟨moved, low, after⟩ := result
        obtain ⟨low_eq, moved, within, apart, covers, frame⟩ := rest
        refine ⟨?_, .cons (.inl ⟨not_not.mp built, rfl⟩) moved, ?_, .cons ?_ apart, ?_, frame⟩
        · rw [builtSize_cons, if_neg built, Nat.zero_add]
          exact low_eq
        · intro other member other_built
          rcases List.mem_cons.mp member with rfl | behind
          · exact absurd other_built built
          · exact within other behind other_built
        · exact fun _ _ head_built => absurd head_built built
        · intro address above below
          obtain ⟨other, member, covered⟩ := covers address above below
          exact ⟨other, List.mem_cons_of_mem _ member, covered⟩

theorem Moved.getRoot_eq {temp bytes : Nat → UInt8} {slot moved : Slot}
    (move : Moved temp bytes slot moved) : moved.getRoot = slot.getRoot := by
  rcases move with ⟨-, rfl⟩ | ⟨-, place, rfl, -⟩
  · rfl
  · rfl

theorem Moved.isUsed_eq {temp bytes : Nat → UInt8} {slot moved : Slot}
    (move : Moved temp bytes slot moved) : moved.isUsed = slot.isUsed := by
  rcases move with ⟨-, rfl⟩ | ⟨-, place, rfl, -⟩
  · rfl
  · rfl

theorem Moved.keys_eq {temp bytes : Nat → UInt8} {slot moved : Slot}
    (move : Moved temp bytes slot moved) : moved.irt_keys = slot.irt_keys := by
  rcases move with ⟨-, rfl⟩ | ⟨-, place, rfl, -⟩
  · rfl
  · rfl

/-- Only built indexes are moved. -/
theorem Moved.eq_of_root {temp bytes : Nat → UInt8} {slot moved : Slot}
    (move : Moved temp bytes slot moved) (root_eq : moved.getRoot = 0) : moved = slot := by
  rcases move with ⟨-, moved_eq⟩ | ⟨built, place, rfl, -⟩
  · exact moved_eq
  · exact absurd root_eq built

theorem WellFormed.apart_of_less {page_size : Nat} {page : RootPage}
    (formed : WellFormed page_size page) {i j : Nat} (less : i < j) {first second : Slot}
    (at_first : page.irt_rpt[i]? = some first) (at_second : page.irt_rpt[j]? = some second)
    (first_used : first.isUsed = true) (second_used : second.isUsed = true) :
    first.area.Apart second.area := by
  obtain ⟨i_lt, rfl⟩ := List.getElem?_eq_some_iff.mp at_first
  obtain ⟨j_lt, rfl⟩ := List.getElem?_eq_some_iff.mp at_second
  exact List.pairwise_iff_getElem.mp formed.apart i j i_lt j_lt less first_used second_used

/-- The descriptors of two slots in use are apart. -/
theorem WellFormed.apart_of_ne {page_size : Nat} {page : RootPage}
    (formed : WellFormed page_size page) {first second : Slot} (first_mem : first ∈ page.irt_rpt)
    (second_mem : second ∈ page.irt_rpt) (differ : first ≠ second) (first_used : first.isUsed = true)
    (second_used : second.isUsed = true) : first.area.Apart second.area := by
  obtain ⟨i, at_first⟩ := List.mem_iff_getElem?.mp first_mem
  obtain ⟨j, at_second⟩ := List.mem_iff_getElem?.mp second_mem
  rcases Nat.lt_trichotomy i j with less | rfl | greater
  · exact formed.apart_of_less less at_first at_second first_used second_used
  · exact absurd (Option.some.inj (at_first.symm.trans at_second)) differ
  · exact (formed.apart_of_less greater at_second at_first second_used first_used).symm

section Keeps

variable {page_size : Nat} {page : RootPage}

theorem builtSize_le (formed : WellFormed page_size page) :
    builtSize page.irt_rpt ≤ page_size - arrayEnd page.irt_rpt.length := by
  have sum_eq : builtSize page.irt_rpt =
      (((page.irt_rpt.filter fun slot => slot.getRoot ≠ 0).map Slot.area).map Extent.size).sum := by
    rw [builtSize, List.map_map]
    rfl
  rw [sum_eq]
  refine Extent.sum_size_le (fun area member => ?_) ?_
  · obtain ⟨slot, slot_mem, rfl⟩ := List.mem_map.mp member
    obtain ⟨slot_mem, built⟩ := List.mem_filter.mp slot_mem
    exact formed.within slot slot_mem (Slot.isUsed_of_root (of_decide_eq_true built))
  · rw [List.pairwise_map, List.pairwise_filter]
    exact formed.apart.imp fun apart first_built second_built =>
      apart (Slot.isUsed_of_root (of_decide_eq_true first_built))
        (Slot.isUsed_of_root (of_decide_eq_true second_built))

/-- What `compress_root` does to a well formed page. -/
theorem compress_root_spec (formed : WellFormed page_size page) :
    Compressed page.bytes page.irt_rpt page_size page.bytes
      ((compress_root page_size page).irt_rpt, page_size - builtSize page.irt_rpt,
        (compress_root page_size page).bytes) := by
  have spec := @compressSlots_spec page.bytes page.irt_rpt page_size page.bytes
    ((builtSize_le formed).trans (Nat.sub_le _ _))
  rw [compress_root, ← spec.low_eq]
  exact spec

theorem exists_moved {temp bytes : Nat → UInt8} {slots moved : List Slot}
    (moves : slots.Forall₂ (Moved temp bytes) moved) {id : Nat} {slot : Slot}
    (at_id : slots[id]? = some slot) :
    ∃ other, moved[id]? = some other ∧ Moved temp bytes slot other := by
  induction moves generalizing id with
  | nil => cases at_id
  | cons move moves ih =>
      cases id with
      | zero =>
          obtain rfl := Option.some.inj at_id
          exact ⟨_, rfl, move⟩
      | succ id => exact ih at_id

theorem exists_original {temp bytes : Nat → UInt8} {slots moved : List Slot}
    (moves : slots.Forall₂ (Moved temp bytes) moved) {id : Nat} {other : Slot}
    (at_id : moved[id]? = some other) :
    ∃ slot, slots[id]? = some slot ∧ Moved temp bytes slot other := by
  induction moves generalizing id with
  | nil => cases at_id
  | cons move moves ih =>
      cases id with
      | zero =>
          obtain rfl := Option.some.inj at_id
          exact ⟨_, rfl, move⟩
      | succ id => exact ih at_id

theorem keeps_of_buildsBelow (formed : WellFormed page_size page)
    (below : BuildsBelow page_size page) :
    Keeps page_size page (compress_root page_size page) := by
  have spec := compress_root_spec formed
  have size_le := builtSize_le formed
  generalize compress_root page_size page = after at spec ⊢
  have length_eq : page.irt_rpt.length = after.irt_rpt.length := spec.moved.length_eq
  have used_original : ∀ {id : Nat} {moved : Slot}, after.irt_rpt[id]? = some moved →
      moved.isUsed = true → ∃ slot, page.irt_rpt[id]? = some slot ∧ slot ∈ page.irt_rpt ∧
        slot.isUsed = true ∧ Moved page.bytes after.bytes slot moved := by
    intro id moved at_id used
    obtain ⟨slot, at_slot, move⟩ := exists_original spec.moved at_id
    exact ⟨slot, at_slot, List.mem_of_getElem? at_slot, move.isUsed_eq ▸ used, move⟩
  -- A slot that is used and not built is under construction, and stays below the others.
  have stays : ∀ {id : Nat} {moved : Slot}, after.irt_rpt[id]? = some moved →
      moved.isUsed = true → moved.getRoot = 0 →
      page.irt_rpt[id]? = some moved ∧ moved ∈ page.irt_rpt ∧
        moved.irt_desc + moved.size ≤ page_size - builtSize page.irt_rpt := by
    intro id moved at_id used root_eq
    obtain ⟨slot, at_slot, slot_mem, slot_used, move⟩ := used_original at_id used
    obtain rfl := move.eq_of_root root_eq
    refine ⟨at_slot, slot_mem, below _ slot_mem ?_⟩
    exact (Slot.isUsed_iff.mp used).resolve_right (not_not.mpr root_eq)
  refine ⟨fun id slot at_id used => ?_, ?_, ?_, ?_⟩
  · obtain ⟨moved, at_moved, move⟩ := exists_moved spec.moved at_id
    refine ⟨moved, at_moved, move.isUsed_eq.trans used, move.keys_eq, ?_⟩
    rcases move with ⟨root_eq, rfl⟩ | ⟨-, place, rfl, loaded⟩
    · obtain ⟨-, -, low⟩ := stays at_moved used root_eq
      exact ByteMemory.load_congr fun cell cell_lt => spec.frame _ (.inl (by dsimp only; omega))
    · exact loaded
  · intro moved member used
    obtain ⟨id, at_id⟩ := List.mem_iff_getElem?.mp member
    obtain ⟨slot, -, slot_mem, slot_used, move⟩ := used_original at_id used
    exact move.keys_eq ▸ formed.keys_pos slot slot_mem slot_used
  · intro moved member used
    rw [← length_eq]
    by_cases built : moved.getRoot ≠ 0
    · obtain ⟨above, high⟩ := spec.within moved member built
      obtain ⟨id, at_id⟩ := List.mem_iff_getElem?.mp member
      obtain ⟨slot, -, slot_mem, slot_used, -⟩ := used_original at_id used
      obtain ⟨behind_slots, on_page⟩ := formed.within slot slot_mem slot_used
      have slots_le : arrayEnd page.irt_rpt.length ≤ page_size - builtSize page.irt_rpt := by omega
      exact ⟨slots_le.trans above, high⟩
    · obtain ⟨id, at_id⟩ := List.mem_iff_getElem?.mp member
      exact formed.within moved (stays at_id used (not_not.mp built)).2.1 used
  · refine List.pairwise_iff_getElem.mpr fun i j i_lt j_lt less first_used second_used => ?_
    have built_apart := List.pairwise_iff_getElem.mp spec.apart i j i_lt j_lt less
    have at_first := List.getElem?_eq_getElem i_lt
    have at_second := List.getElem?_eq_getElem j_lt
    have first_mem := List.getElem_mem i_lt
    have second_mem := List.getElem_mem j_lt
    generalize after.irt_rpt[i] = first at *
    generalize after.irt_rpt[j] = second at *
    by_cases first_built : first.getRoot ≠ 0
    · by_cases second_built : second.getRoot ≠ 0
      · exact built_apart first_built second_built
      · exact .inr ((stays at_second second_used (not_not.mp second_built)).2.2.trans
          (spec.within first first_mem first_built).1)
    · by_cases second_built : second.getRoot ≠ 0
      · exact .inl ((stays at_first first_used (not_not.mp first_built)).2.2.trans
          (spec.within second second_mem second_built).1)
      · have first_there := (stays at_first first_used (not_not.mp first_built)).1
        have second_there := (stays at_second second_used (not_not.mp second_built)).1
        exact formed.apart_of_less less first_there second_there first_used second_used

theorem buildsBelow_of_keeps (formed : WellFormed page_size page)
    (keeps : Keeps page_size page (compress_root page_size page)) : BuildsBelow page_size page := by
  have spec := compress_root_spec formed
  obtain ⟨-, formed_after⟩ := keeps
  generalize compress_root page_size page = after at spec formed_after
  intro slot member building
  have used : slot.isUsed = true := Slot.isUsed_iff.mpr (.inl building)
  have root_eq := Slot.getRoot_of_inProgress building
  obtain ⟨id, at_id⟩ := List.mem_iff_getElem?.mp member
  obtain ⟨moved, at_moved, move⟩ := exists_moved spec.moved at_id
  obtain rfl := move.eq_of_root (move.getRoot_eq.trans root_eq)
  have moved_mem := List.mem_of_getElem? at_moved
  have keys_pos := formed.keys_pos moved member used
  have high : moved.irt_desc + moved.size ≤ page_size := (formed.within moved member used).2
  by_contra above
  have size_pos : 0 < moved.size := Nat.mul_pos keys_pos (by decide)
  obtain ⟨other, other_mem, built, low, inside⟩ :=
    spec.covers (moved.irt_desc + moved.size - 1) (by dsimp only; omega) (by omega)
  have differ : other ≠ moved := by
    rintro rfl
    exact built root_eq
  have apart := formed_after.apart_of_ne other_mem moved_mem differ (Slot.isUsed_of_root built) used
  rcases apart with before | behind
  · change other.irt_desc + other.size ≤ moved.irt_desc at before
    omega
  · change moved.irt_desc + moved.size ≤ other.irt_desc at behind
    omega

end Keeps

end IndexRoot
end Firebird
