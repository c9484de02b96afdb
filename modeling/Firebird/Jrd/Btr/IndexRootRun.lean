import Firebird.Jrd.Btr.IndexRootCompress

/-!
# Runs on the index root page

As long as every operation is sound, the descriptors of the slots in use stay on the page and apart, and
a compression keeps them exactly when it finds those of unfinished indexes below the others.
-/

namespace Firebird
namespace IndexRoot

open ByteMemory (load store copy)

variable {page_size : Nat} {page : RootPage}

namespace Slot

theorem inProgress_setTransaction (slot : Slot) (traNumber : Nat) :
    (slot.setTransaction traNumber).inProgress = true := by
  rw [inProgress, decide_eq_true_iff, setTransaction, Nat.and_or_distrib_right, ne_eq,
    Nat.or_eq_zero_iff]
  exact fun zero => absurd zero.2 (by decide)

theorem inProgress_setRoot (slot : Slot) (root_page : Nat) :
    (slot.setRoot root_page).inProgress = false := by
  rw [inProgress, decide_eq_false_iff_not, not_not, setRoot, Nat.and_assoc]
  exact Nat.and_zero _

theorem isUsed_deleted (slot : Slot) :
    ({ slot.setRoot 0 with irt_flags := 0 } : Slot).isUsed = false := by
  rw [isUsed, inProgress, Bool.or_eq_false_iff]
  exact ⟨decide_eq_false (not_not.mpr (Nat.zero_and _)), decide_eq_false (not_not.mpr rfl)⟩

theorem isUsed_setTransaction (slot : Slot) (traNumber : Nat) :
    (slot.setTransaction traNumber).isUsed = true :=
  isUsed_iff.mpr (.inl (inProgress_setTransaction slot traNumber))

end Slot

theorem arrayEnd_mono {first second : Nat} (le : first ≤ second) :
    arrayEnd first ≤ arrayEnd second := by
  rw [arrayEnd, arrayEnd]
  omega

theorem highWater_spec (slots : List Slot) (top : Nat) :
    highWater top slots ≤ top ∧
      (∀ slot ∈ slots, slot.isUsed = true → highWater top slots ≤ slot.irt_desc) ∧
      ∀ bound ≤ top, (∀ slot ∈ slots, slot.isUsed = true → bound ≤ slot.irt_desc) →
        bound ≤ highWater top slots := by
  induction slots generalizing top with
  | nil => exact ⟨le_rfl, nofun, fun bound bound_le _ => bound_le⟩
  | cons slot slots ih =>
      rw [highWater, List.foldl_cons]
      by_cases used : slot.isUsed = true
      · rw [if_pos used]
        obtain ⟨le_top, le_desc, ge⟩ := ih (min top slot.irt_desc)
        refine ⟨le_top.trans (Nat.min_le_left _ _), fun other member other_used => ?_,
          fun bound bound_le all => ?_⟩
        · rcases List.mem_cons.mp member with rfl | behind
          · exact le_top.trans (Nat.min_le_right _ _)
          · exact le_desc other behind other_used
        · exact ge bound (le_min bound_le (all slot List.mem_cons_self used))
            fun other member => all other (List.mem_cons_of_mem _ member)
      · rw [if_neg used]
        obtain ⟨le_top, le_desc, ge⟩ := ih top
        refine ⟨le_top, fun other member other_used => ?_, fun bound bound_le all => ?_⟩
        · rcases List.mem_cons.mp member with rfl | behind
          · exact absurd other_used used
          · exact le_desc other behind other_used
        · exact ge bound bound_le fun other member => all other (List.mem_cons_of_mem _ member)

theorem freeSlot_spec {idx_id : Option Nat} {first : Nat} {slots : List Slot} {index : Nat}
    (found : freeSlot idx_id first slots = some index) :
    ∃ place slot, index = first + place ∧ slots[place]? = some slot ∧ slot.isUsed = false := by
  induction slots generalizing first with
  | nil => cases found
  | cons slot slots ih =>
      rw [freeSlot] at found
      split at found
      · rename_i free
        obtain rfl := Option.some.inj found
        exact ⟨0, slot, rfl, rfl, free.1⟩
      · obtain ⟨place, other, rfl, at_place, unused⟩ := ih found
        exact ⟨place + 1, other, by omega, at_place, unused⟩

/-- One slot of the page is replaced by a slot whose descriptors are apart from all others. -/
theorem WellFormed.put {slots : List Slot} {bytes : Nat → UInt8} (formed : WellFormed page_size page)
    {place : Nat} {slot : Slot}
    (others : ∀ (id : Nat) (other : Slot), id ≠ place → slots[id]? = some other → other.isUsed = true →
      page.irt_rpt[id]? = some other)
    (at_place : slots[place]? = some slot)
    (behind : ∀ (id : Nat) (other : Slot), page.irt_rpt[id]? = some other → other.isUsed = true →
      arrayEnd slots.length ≤ other.irt_desc)
    (keys_pos : slot.isUsed = true → 0 < slot.irt_keys)
    (within : slot.isUsed = true → slot.area.Within (arrayEnd slots.length) page_size)
    (apart : slot.isUsed = true → ∀ (id : Nat) (other : Slot), id ≠ place → page.irt_rpt[id]? = some other →
      other.isUsed = true → slot.area.Apart other.area) :
    WellFormed page_size { irt_rpt := slots, bytes := bytes } := by
  refine ⟨fun other member used => ?_, fun other member used => ?_, ?_⟩
  · obtain ⟨id, at_id⟩ := List.mem_iff_getElem?.mp member
    by_cases same : id = place
    · subst same
      obtain rfl := Option.some.inj (at_id.symm.trans at_place)
      exact keys_pos used
    · exact formed.keys_pos other (List.mem_of_getElem? (others id other same at_id used)) used
  · obtain ⟨id, at_id⟩ := List.mem_iff_getElem?.mp member
    by_cases same : id = place
    · subst same
      obtain rfl := Option.some.inj (at_id.symm.trans at_place)
      exact within used
    · have there := others id other same at_id used
      exact ⟨behind id other there used, (formed.within other (List.mem_of_getElem? there) used).2⟩
  · refine List.pairwise_iff_getElem.mpr fun i j i_lt j_lt less first_used second_used => ?_
    have at_first := List.getElem?_eq_getElem i_lt
    have at_second := List.getElem?_eq_getElem j_lt
    dsimp only at *
    generalize slots[i] = first at *
    generalize slots[j] = second at *
    by_cases i_place : i = place
    · subst i_place
      obtain rfl := Option.some.inj (at_first.symm.trans at_place)
      exact apart first_used j second less.ne' (others j second less.ne' at_second second_used)
        second_used
    · by_cases j_place : j = place
      · subst j_place
        obtain rfl := Option.some.inj (at_second.symm.trans at_place)
        exact (apart second_used i first less.ne (others i first less.ne at_first first_used)
          first_used).symm
      · exact formed.apart_of_less less (others i first i_place at_first first_used)
          (others j second j_place at_second second_used) first_used second_used

theorem WellFormed.changeSlot {id : Nat} {change : Slot → Slot}
    (formed : WellFormed page_size page) (area_eq : ∀ slot, (change slot).area = slot.area)
    (keys_eq : ∀ slot, (change slot).irt_keys = slot.irt_keys)
    (used : ∀ slot, page.irt_rpt[id]? = some slot → (change slot).isUsed = true →
      slot.isUsed = true) :
    WellFormed page_size (changeSlot id change page) := by
  cases at_id : page.irt_rpt[id]? with
  | none =>
      rw [IndexRoot.changeSlot, List.modify_eq_self (List.getElem?_eq_none_iff.mp at_id)]
      exact formed
  | some slot =>
      have mem := List.mem_of_getElem? at_id
      refine @WellFormed.put _ _ _ _ formed id (change slot)
        (fun i other differ at_i _ => ?_) ?_ ?_ (fun now_used => ?_) (fun now_used => ?_)
        fun now_used i other differ at_i other_used => ?_
      · rw [List.getElem?_modify_ne _ _ differ.symm] at at_i
        exact at_i
      · rw [List.getElem?_modify_eq, at_id]
        rfl
      · intro i other at_i other_used
        rw [List.length_modify]
        exact (formed.within other (List.mem_of_getElem? at_i) other_used).1
      · rw [keys_eq]
        exact formed.keys_pos slot mem (used slot at_id now_used)
      · rw [area_eq, List.length_modify]
        exact formed.within slot mem (used slot at_id now_used)
      · rw [area_eq]
        rcases Nat.lt_or_gt_of_ne differ with less | greater
        · exact (formed.apart_of_less less at_i at_id other_used (used slot at_id now_used)).symm
        · exact formed.apart_of_less greater at_id at_i (used slot at_id now_used) other_used

theorem WellFormed.occupy {use_idx_id : Bool} {idx : IndexDesc} {traNumber : Nat}
    (formed : WellFormed page_size page) (small : page_size < 2 ^ 16)
    (size_le : idx.idx_count * 8 ≤ highWater page_size page.irt_rpt)
    (room : ¬ page.Full page_size idx) :
    WellFormed page_size (page.occupy page_size use_idx_id idx traNumber) := by
  obtain ⟨le_top, le_desc, -⟩ := highWater_spec page.irt_rpt page_size
  have space_eq : page.space page_size idx =
      highWater page_size page.irt_rpt - idx.idx_count * 8 := by
    rw [RootPage.space]
    omega
  have room : arrayEnd (page.irt_rpt.length + 1) ≤
      highWater page_size page.irt_rpt - idx.idx_count * 8 := by
    rw [← space_eq]
    exact Nat.le_of_not_lt room
  have all_desc : ∀ (id : Nat) (other : Slot), page.irt_rpt[id]? = some other →
      other.isUsed = true → highWater page_size page.irt_rpt ≤ other.irt_desc :=
    fun id other at_id used => le_desc other (List.mem_of_getElem? at_id) used
  rw [RootPage.occupy, space_eq]
  generalize slot_eq : Slot.setTransaction _ traNumber = slot
  have desc_eq : slot.irt_desc = highWater page_size page.irt_rpt - idx.idx_count * 8 :=
    slot_eq ▸ rfl
  have keys_eq : slot.irt_keys = idx.idx_count := slot_eq ▸ rfl
  have area_end : slot.area.start + slot.area.size = highWater page_size page.irt_rpt := by
    change slot.irt_desc + slot.irt_keys * 8 = _
    rw [desc_eq, keys_eq, Nat.sub_add_cancel size_le]
  have apart : ∀ (id : Nat) (other : Slot), page.irt_rpt[id]? = some other →
      other.isUsed = true → slot.area.Apart other.area := fun id other at_id used =>
    .inl (area_end.trans_le (all_desc id other at_id used))
  have keys_pos : 0 < slot.irt_keys := keys_eq ▸ idx.count_pos
  cases found : freeSlot (if use_idx_id = true then some idx.idx_id else none) 0 page.irt_rpt with
  | none =>
      have length_eq : (page.irt_rpt ++ [slot]).length = page.irt_rpt.length + 1 :=
        List.length_append
      refine @WellFormed.put _ _ _ _ formed page.irt_rpt.length slot
        (fun i other differ at_i _ => ?_) List.getElem?_concat_length ?_ (fun _ => keys_pos)
        (fun _ => ⟨?_, area_end.trans_le le_top⟩)
        fun _ i other _ at_i used => apart i other at_i used
      · have i_lt : i < (page.irt_rpt ++ [slot]).length := (List.getElem?_eq_some_iff.mp at_i).1
        rw [List.getElem?_append_left (by omega)] at at_i
        exact at_i
      · intro i other at_i used
        rw [length_eq]
        exact room.trans ((Nat.sub_le _ _).trans (all_desc i other at_i used))
      · rw [length_eq]
        exact room.trans_eq desc_eq.symm
  | some index =>
      obtain ⟨place, old, index_eq, at_place, unused⟩ := freeSlot_spec found
      rw [Nat.zero_add] at index_eq
      subst index_eq
      have index_lt := (List.getElem?_eq_some_iff.mp at_place).1
      have slots_le := arrayEnd_mono (Nat.le_succ page.irt_rpt.length)
      refine @WellFormed.put _ _ _ _ formed index slot
        (fun i other differ at_i _ => ?_) ?_ ?_ (fun _ => keys_pos)
        (fun _ => ⟨?_, area_end.trans_le le_top⟩)
        fun _ i other _ at_i used => apart i other at_i used
      · rw [List.getElem?_set_ne differ.symm] at at_i
        exact at_i
      · rw [List.getElem?_set_self index_lt]
      · intro i other at_i used
        rw [List.length_set]
        exact (formed.within other (List.mem_of_getElem? at_i) used).1
      · rw [List.length_set]
        exact (slots_le.trans room).trans_eq desc_eq.symm

section Grown

variable {use_idx_id : Bool} {idx : IndexDesc}

/-- The new slots are empty. -/
theorem grown_eq (use_idx_id : Bool) (idx : IndexDesc) (page : RootPage) :
    ∃ slots, page.grown use_idx_id idx = { page with irt_rpt := page.irt_rpt ++ slots } ∧
      (∀ slot ∈ slots, slot = ⟨0, 0, 0, 0, 0⟩) ∧
      (slots ≠ [] → use_idx_id = true ∧ page.irt_rpt.length ≤ idx.idx_id ∧
        (page.irt_rpt ++ slots).length = idx.idx_id + 1) := by
  rw [RootPage.grown]
  split
  · rename_i grows
    refine ⟨_, rfl, fun slot member => (List.mem_replicate.mp member).2, fun _ => ⟨grows.1, grows.2, ?_⟩⟩
    rw [List.length_append, List.length_replicate]
    omega
  · exact ⟨[], by rw [List.append_nil], nofun, fun nonempty => absurd rfl nonempty⟩

theorem used_of_grown {slot : Slot} (member : slot ∈ (page.grown use_idx_id idx).irt_rpt)
    (used : slot.isUsed = true) : slot ∈ page.irt_rpt := by
  obtain ⟨slots, grown_eq, empty_slots, -⟩ := grown_eq use_idx_id idx page
  rw [grown_eq] at member
  rcases List.mem_append.mp member with there | new
  · exact there
  · rw [empty_slots slot new] at used
    exact absurd used (by decide)

theorem builtSize_grown :
    builtSize (page.grown use_idx_id idx).irt_rpt = builtSize page.irt_rpt := by
  obtain ⟨slots, grown_eq, empty_slots, -⟩ := grown_eq use_idx_id idx page
  have none_built : slots.filter (fun slot => slot.getRoot ≠ 0) = [] := by
    refine List.filter_eq_nil_iff.mpr fun slot member => ?_
    rw [empty_slots slot member]
    decide
  rw [grown_eq, builtSize, builtSize, List.filter_append, none_built, List.append_nil]

theorem WellFormed.grown (formed : WellFormed page_size page)
    (room : use_idx_id = true → page.irt_rpt.length ≤ idx.idx_id →
      ∀ slot ∈ page.irt_rpt, slot.isUsed = true → arrayEnd (idx.idx_id + 1) ≤ slot.irt_desc) :
    WellFormed page_size (page.grown use_idx_id idx) := by
  refine ⟨fun slot member used => formed.keys_pos slot (used_of_grown member used) used,
    fun slot member used => ⟨?_, (formed.within slot (used_of_grown member used) used).2⟩, ?_⟩
  · have there := used_of_grown member used
    obtain ⟨slots, grown_eq, -, grows⟩ := grown_eq use_idx_id idx page
    rw [grown_eq]
    by_cases nonempty : slots = []
    · rw [nonempty, List.append_nil]
      exact (formed.within slot there used).1
    · obtain ⟨use, old_le, length_eq⟩ := grows nonempty
      rw [length_eq]
      exact room use old_le slot there used
  · obtain ⟨slots, grown_eq, empty_slots, -⟩ := grown_eq use_idx_id idx page
    rw [grown_eq]
    refine List.pairwise_append.mpr ⟨formed.apart, ?_, fun _ _ second second_mem _ used => ?_⟩
    · refine List.pairwise_of_forall_mem_list fun first first_mem _ _ used => ?_
      rw [empty_slots first first_mem] at used
      exact absurd used (by decide)
    · rw [empty_slots second second_mem] at used
      exact absurd used (by decide)

theorem BuildsBelow.grown (below : BuildsBelow page_size page) :
    BuildsBelow page_size (page.grown use_idx_id idx) := by
  intro slot member building
  rw [builtSize_grown]
  exact below slot (used_of_grown member (Slot.isUsed_iff.mpr (.inl building))) building

end Grown

/-- A slot that is used after the compression has its old descriptors' offset, or lies in the space of
the built indexes. -/
theorem desc_compressed (formed : WellFormed page_size page) {moved : Slot}
    (member : moved ∈ (compress_root page_size page).irt_rpt) (used : moved.isUsed = true) :
    page_size - builtSize page.irt_rpt ≤ moved.irt_desc ∨
      ∃ slot ∈ page.irt_rpt, slot.isUsed = true ∧ slot.irt_desc = moved.irt_desc := by
  have spec := compress_root_spec formed
  by_cases built : moved.getRoot ≠ 0
  · exact .inl (spec.within moved member built).1
  · obtain ⟨id, at_id⟩ := List.mem_iff_getElem?.mp member
    obtain ⟨slot, at_slot, move⟩ := exists_original spec.moved at_id
    obtain rfl := move.eq_of_root (not_not.mp built)
    exact .inr ⟨moved, List.mem_of_getElem? at_slot, used, rfl⟩

theorem WellFormed.reserve {use_idx_id : Bool} {idx : IndexDesc} {traNumber : Nat}
    (formed : WellFormed page_size page) (large : 4096 ≤ page_size) (small : page_size < 2 ^ 16)
    (sound : (Operation.reserve use_idx_id idx traNumber).Sound page_size page) :
    WellFormed page_size (BTR_reserve_slot page_size use_idx_id idx traNumber page).1 := by
  have count_le := idx.count_le
  rw [BTR_reserve_slot]
  split
  · exact formed
  · rename_i few
    obtain ⟨room, long, full⟩ := sound.resolve_left few
    have formed_grown := formed.grown room
    have size_grown := @builtSize_grown page use_idx_id idx
    have long_grown : ∀ slot ∈ (page.grown use_idx_id idx).irt_rpt, slot.isUsed = true →
        idx.idx_count * 8 ≤ slot.irt_desc :=
      fun slot member used => long slot (used_of_grown member used) used
    dsimp only
    split
    · rename_i no_room
      obtain ⟨below, size_le⟩ := full no_room
      have formed_after := (keeps_of_buildsBelow formed_grown below.grown).2
      have long_after : idx.idx_count * 8 ≤
          highWater page_size (compress_root page_size (page.grown use_idx_id idx)).irt_rpt := by
        refine (highWater_spec _ page_size).2.2 _ (by omega) fun moved member used => ?_
        rcases desc_compressed formed_grown member used with built | ⟨slot, there, slot_used, desc_eq⟩
        · omega
        · exact desc_eq ▸ long_grown slot there slot_used
      split
      · exact formed_after
      · rename_i enough
        exact formed_after.occupy small long_after enough
    · rename_i enough
      exact formed_grown.occupy small
        ((highWater_spec _ page_size).2.2 _ (by omega) long_grown) enough

theorem WellFormed.setRoot {id root_page : Nat} (formed : WellFormed page_size page)
    (used : ∀ slot, page.irt_rpt[id]? = some slot → slot.isUsed = true) :
    WellFormed page_size (setRoot id root_page page) :=
  formed.changeSlot (fun _ => rfl) (fun _ => rfl) fun slot at_id _ => used slot at_id

theorem WellFormed.delete {id : Nat} (formed : WellFormed page_size page) :
    WellFormed page_size (BTR_delete_index id page) :=
  formed.changeSlot (fun _ => rfl) (fun _ => rfl) fun slot _ used =>
    absurd ((Slot.isUsed_deleted slot).symm.trans used) Bool.false_ne_true

/-- The selectivities are part of the descriptors, which stay where they are. -/
theorem WellFormed.update_selectivity {id : Nat} {selectivity : List (List UInt8)}
    (formed : WellFormed page_size page) :
    WellFormed page_size (update_selectivity id selectivity page) := by
  rw [IndexRoot.update_selectivity]
  split
  · exact formed
  · exact ⟨formed.keys_pos, formed.within, formed.apart⟩

/-- A sound operation keeps the page well formed. -/
theorem WellFormed.apply {operation : Operation} (formed : WellFormed page_size page)
    (large : 4096 ≤ page_size) (small : page_size < 2 ^ 16)
    (sound : operation.Sound page_size page) :
    WellFormed page_size (operation.apply page_size page) := by
  cases operation with
  | reserve use_idx_id idx traNumber => exact formed.reserve large small sound
  | create id root_page selectivity => exact (formed.setRoot sound.2).update_selectivity
  | change id root_page => exact formed.setRoot sound.2
  | delete id => exact formed.delete

theorem WellFormed.run {operations : List Operation} (formed : WellFormed page_size page)
    (large : 4096 ≤ page_size) (small : page_size < 2 ^ 16)
    (sound : AllSound page_size operations page) :
    WellFormed page_size (run page_size operations page) := by
  induction operations generalizing page with
  | nil => exact formed
  | cons operation operations ih =>
      exact ih (formed.apply large small sound.1) sound.2

/-- An index root page without slots. -/
theorem wellFormed_empty (page_size : Nat) (bytes : Nat → UInt8) :
    WellFormed page_size { irt_rpt := [], bytes := bytes } :=
  ⟨nofun, nofun, .nil⟩

/-- An index with sixteen keys. -/
def wideIndex : IndexDesc where
  idx_id := 0
  idx_flags := 0
  idx_count := 16
  idx_rpt := List.replicate 128 1
  count_pos := by decide
  count_le := by decide
  length_rpt := List.length_replicate

/-- One index is being built while twenty-eight others are created. -/
def crowded : List Operation :=
  .reserve false wideIndex 1 :: (List.range 28).flatMap fun id =>
    [.reserve false wideIndex 2, .create (id + 1) 7 []]

end IndexRoot
end Firebird
