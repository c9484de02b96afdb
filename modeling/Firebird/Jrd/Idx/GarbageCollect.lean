import Firebird.Jrd.Btr.IndexRoot

/-!
# Garbage collection of index entries

`IDX_garbage_collect` gets the record versions that go and those that stay, and removes from each index
of the relation the keys that only going versions have.
-/

namespace Firebird
namespace IdxGarbage

open IndexRoot (RootPage Slot)

/-- `idx_e`, without `idx_e_ok`. -/
inductive idx_e
  | idx_e_duplicate
  | idx_e_keytoobig
  | idx_e_conversion
  | idx_e_interrupt
  | idx_e_foreign_target_doesnt_exist
  | idx_e_foreign_references_present
  deriving DecidableEq, Repr

/-- `temporary_key`: the bytes of the key are the first ones of the buffer. -/
structure TemporaryKey where
  key_length : Nat
  key_data : List UInt8
  length_le : key_length ≤ key_data.length
  deriving DecidableEq, Repr

/-- The bytes of a key. -/
def TemporaryKey.bytes (key : TemporaryKey) : List UInt8 := key.key_data.take key.key_length

def key_equal (key1 key2 : TemporaryKey) : Bool :=
  key1.key_length = key2.key_length &&
    key1.key_data.take key1.key_length = key2.key_data.take key1.key_length

/-- The parts of `index_desc` that `BTR_key` reads: the flags, and the field and the type of each
segment. -/
structure Segments where
  idx_count : Nat
  idx_flags : Nat
  idx_rpt : List (Nat × Nat)
  deriving DecidableEq, Repr

/-- `index_desc`. -/
structure IndexDesc where
  idx_id : Nat
  idx_root : Nat
  segments : Segments
  deriving DecidableEq, Repr

/-- A `USHORT` on the page. -/
def ushort (bytes : Nat → UInt8) (place : Nat) : Nat :=
  (bytes place).toNat + 256 * (bytes (place + 1)).toNat

/-- What `BTR_description` picks up from a slot and its key descriptors. -/
def segmentsOf (bytes : Nat → UInt8) (slot : Slot) : Segments where
  idx_count := slot.irt_keys
  idx_flags := slot.irt_flags
  idx_rpt := (List.range slot.irt_keys).map fun i =>
    (ushort bytes (slot.irt_desc + 8 * i), ushort bytes (slot.irt_desc + 8 * i + 2))

def BTR_description (root : RootPage) (id : Nat) : Option IndexDesc :=
  match root.irt_rpt[id]? with
  | none => none
  | some slot =>
      if slot.getRoot = 0 then none else some ⟨id, slot.getRoot, segmentsOf root.bytes slot⟩

/-- What `BTR_remove` is asked for. -/
structure Removal where
  idx_id : Nat
  idx_root : Nat
  key : TemporaryKey
  iib_number : Nat
  deriving DecidableEq, Repr

/-- The index root page and the removals so far. -/
structure Collection where
  root : RootPage
  removed : List Removal

/-- `context.raise`. -/
structure Raised (Record : Type*) where
  result : idx_e
  record : Record

section Source

variable {Record : Type*} (BTR_key : Segments → Record → Except idx_e TemporaryKey)
  (lowered : List Removal → Option Nat) (rpb_number : Nat)

/-- `BTR_remove`; it changes the root page of an index that gets one level lower. -/
def Collection.BTR_remove (removal : Removal) (collection : Collection) : Collection :=
  let removed := collection.removed ++ [removal]
  { root :=
      match lowered removed with
      | none => collection.root
      | some number => IndexRoot.setRoot removal.idx_id number collection.root
    removed := removed }

/-- The scans of `stack2` and `stack3` for a record with the same key. -/
def scanEqual (segments : Segments) (key1 : TemporaryKey) :
    List Record → Except (Raised Record) Bool
  | [] => .ok false
  | rec2 :: rest =>
      match BTR_key segments rec2 with
      | .error result =>
          if result = .idx_e_conversion then scanEqual segments key1 rest
          else .error ⟨result, rec2⟩
      | .ok key2 => if key_equal key1 key2 then .ok true else scanEqual segments key1 rest

/-- The loop over `stack1` for the index `i`. -/
def collectIndex (staying : List Record) (i : Nat) :
    List Record → IndexDesc → Collection → Collection × Option (Raised Record)
  | [], _, collection => (collection, none)
  | rec1 :: stack2, idx, collection =>
      match BTR_key idx.segments rec1 with
      | .error result =>
          if result = .idx_e_conversion then collectIndex staying i stack2 idx collection
          else (collection, some ⟨result, rec1⟩)
      | .ok key1 =>
          match scanEqual BTR_key idx.segments key1 stack2 with
          | .error raised => (collection, some raised)
          | .ok true => collectIndex staying i stack2 idx collection
          | .ok false =>
              match scanEqual BTR_key idx.segments key1 staying with
              | .error raised => (collection, some raised)
              | .ok true => collectIndex staying i stack2 idx collection
              | .ok false =>
                  let collection :=
                    collection.BTR_remove lowered ⟨idx.idx_id, idx.idx_root, key1, rpb_number⟩
                  -- The result of `BTR_description` is not looked at.
                  let idx :=
                    if stack2.isEmpty then idx else (BTR_description collection.root i).getD idx
                  collectIndex staying i stack2 idx collection

/-- The loop over the indexes; `irt_count` stays the same. -/
def collectFrom (going staying : List Record) :
    Nat → Nat → Collection → Collection × Option (Raised Record)
  | 0, _, collection => (collection, none)
  | count + 1, i, collection =>
      match BTR_description collection.root i with
      | none => collectFrom going staying count (i + 1) collection
      | some idx =>
          match collectIndex BTR_key lowered rpb_number staying i going idx collection with
          | (collection, some raised) => (collection, some raised)
          | (collection, none) => collectFrom going staying count (i + 1) collection

/-- `IDX_garbage_collect`: the removals, and the error if one is raised. -/
def IDX_garbage_collect (root : RootPage) (going staying : List Record) :
    Collection × Option (Raised Record) :=
  collectFrom BTR_key lowered rpb_number going staying root.irt_rpt.length 0 ⟨root, []⟩

/-- A record of the list has this key. -/
def HasKey (segments : Segments) (records : List Record) (bytes : List UInt8) : Prop :=
  ∃ record ∈ records, ∃ key, BTR_key segments record = .ok key ∧ key.bytes = bytes

/-- The key of a record cannot be made, for another reason than a conversion. -/
def Fails (segments : Segments) (record : Record) (result : idx_e) : Prop :=
  BTR_key segments record = .error result ∧ result ≠ .idx_e_conversion

end Source

/-- The keys that are removed from an index. -/
def Collection.removedFrom (collection : Collection) (idx_id : Nat) : List (List UInt8) :=
  (collection.removed.filter (·.idx_id = idx_id)).map (·.key.bytes)

theorem key_equal_iff (key1 key2 : TemporaryKey) :
    key_equal key1 key2 = true ↔ key1.bytes = key2.bytes := by
  rw [key_equal, Bool.and_eq_true, decide_eq_true_iff, decide_eq_true_iff]
  constructor
  · rintro ⟨length_eq, data_eq⟩
    rw [TemporaryKey.bytes, data_eq, length_eq, TemporaryKey.bytes]
  · intro bytes_eq
    have length_eq : key1.key_length = key2.key_length := by
      have lengths := congrArg List.length bytes_eq
      rw [TemporaryKey.bytes, TemporaryKey.bytes, List.length_take_of_le key1.length_le,
        List.length_take_of_le key2.length_le] at lengths
      exact lengths
    refine ⟨length_eq, ?_⟩
    rw [TemporaryKey.bytes, TemporaryKey.bytes, ← length_eq] at bytes_eq
    exact bytes_eq

/-! ## The descriptions of the indexes -/

/-- The page has this index in the slot. -/
structure Describes (root : RootPage) (i : Nat) (segments : Segments) (slot : Slot) : Prop where
  slot_eq : root.irt_rpt[i]? = some slot
  built : slot.inProgress = false
  flags_lt : slot.irt_flags < 2 ^ 8
  segments_eq : segmentsOf root.bytes slot = segments

/-- A byte without the flag `irt_in_progress` is not changed by clearing this flag. -/
theorem setRoot_flags {slot : Slot} (built : slot.inProgress = false)
    (flags_lt : slot.irt_flags < 2 ^ 8) (root_page : Nat) :
    (slot.setRoot root_page).irt_flags = slot.irt_flags := by
  have clear : slot.irt_flags &&& 4 = 0 := by
    by_contra set
    exact absurd (show slot.inProgress = true from decide_eq_true set)
      (Bool.eq_false_iff.mp built)
  calc slot.irt_flags &&& 251
      = slot.irt_flags &&& 251 ||| slot.irt_flags &&& 4 := by rw [clear, Nat.or_zero]
    _ = slot.irt_flags &&& (2 ^ 8 - 1) := (Nat.and_or_distrib_left _ 251 4).symm
    _ = slot.irt_flags := by rw [Nat.and_two_pow_sub_one_eq_mod, Nat.mod_eq_of_lt flags_lt]

/-- An index that gets another root page keeps its description. -/
theorem Describes.setRoot {root : RootPage} {i : Nat} {segments : Segments} {slot : Slot}
    (described : Describes root i segments slot) (number : Nat) :
    Describes (IndexRoot.setRoot i number root) i segments (slot.setRoot number) where
  slot_eq := by
    rw [IndexRoot.setRoot, IndexRoot.changeSlot, List.getElem?_modify_eq, described.slot_eq]
    rfl
  built := by
    have flags_eq := setRoot_flags described.built described.flags_lt number
    rw [Slot.inProgress, flags_eq]
    exact described.built
  flags_lt := by
    rw [setRoot_flags described.built described.flags_lt]
    exact described.flags_lt
  segments_eq := by
    have flags_eq := setRoot_flags described.built described.flags_lt number
    rw [← described.segments_eq, segmentsOf, segmentsOf, flags_eq]
    rfl

theorem Describes.segments_of_description {root : RootPage} {i : Nat} {segments : Segments}
    {slot : Slot} (described : Describes root i segments slot) {idx : IndexDesc}
    (description_eq : BTR_description root i = some idx) : idx.segments = segments := by
  rw [BTR_description, described.slot_eq] at description_eq
  dsimp only at description_eq
  split_ifs at description_eq
  rw [← Option.some.inj description_eq]
  exact described.segments_eq

theorem description_id {root : RootPage} {i : Nat} {idx : IndexDesc}
    (description_eq : BTR_description root i = some idx) : idx.idx_id = i := by
  rw [BTR_description] at description_eq
  split at description_eq
  · cases description_eq
  · split_ifs at description_eq
    rw [← Option.some.inj description_eq]

theorem exists_describes {root : RootPage} (bytes : ∀ slot ∈ root.irt_rpt, slot.irt_flags < 2 ^ 8)
    {i : Nat} {idx : IndexDesc} (description_eq : BTR_description root i = some idx) :
    ∃ slot, Describes root i idx.segments slot := by
  rw [BTR_description] at description_eq
  split at description_eq
  case h_1 => cases description_eq
  case h_2 slot slot_eq =>
    split_ifs at description_eq with absent
    refine ⟨slot, slot_eq, ?_, bytes slot (List.mem_of_getElem? slot_eq), ?_⟩
    · by_contra in_progress
      rw [Bool.not_eq_false] at in_progress
      exact absent (by rw [Slot.getRoot, in_progress]; rfl)
    · rw [← Option.some.inj description_eq]

/-- Only the slot of the index is different. -/
structure OthersKept (i : Nat) (root changed : RootPage) : Prop where
  bytes_eq : changed.bytes = root.bytes
  slots_eq : ∀ j, j ≠ i → changed.irt_rpt[j]? = root.irt_rpt[j]?

theorem OthersKept.refl (i : Nat) (root : RootPage) : OthersKept i root root := ⟨rfl, fun _ _ => rfl⟩

theorem OthersKept.trans {i : Nat} {root changed last : RootPage} (first : OthersKept i root changed)
    (second : OthersKept i changed last) : OthersKept i root last :=
  ⟨second.bytes_eq.trans first.bytes_eq,
    fun j apart => (second.slots_eq j apart).trans (first.slots_eq j apart)⟩

theorem othersKept_setRoot (i number : Nat) (root : RootPage) :
    OthersKept i root (IndexRoot.setRoot i number root) :=
  ⟨rfl, fun _ apart => List.getElem?_modify_ne _ _ apart.symm⟩

theorem OthersKept.description_eq {i j : Nat} {root changed : RootPage}
    (kept : OthersKept i root changed) (apart : j ≠ i) :
    BTR_description changed j = BTR_description root j := by
  rw [BTR_description, BTR_description, kept.slots_eq j apart, kept.bytes_eq]

section Loops

variable {Record : Type*} {BTR_key : Segments → Record → Except idx_e TemporaryKey}
  {lowered : List Removal → Option Nat} {rpb_number : Nat}

theorem HasKey.mono {segments : Segments} {records more : List Record} {bytes : List UInt8}
    (has : HasKey BTR_key segments records bytes) (subset : ∀ record ∈ records, record ∈ more) :
    HasKey BTR_key segments more bytes := by
  obtain ⟨record, member, key, key_eq, bytes_eq⟩ := has
  exact ⟨record, subset record member, key, key_eq, bytes_eq⟩

theorem hasKey_cons_of_error {segments : Segments} {record : Record} {records : List Record}
    {result : idx_e} (failed : BTR_key segments record = .error result) (bytes : List UInt8) :
    HasKey BTR_key segments (record :: records) bytes ↔ HasKey BTR_key segments records bytes := by
  refine ⟨fun ⟨other, member, key, key_eq, bytes_eq⟩ => ?_,
    fun has => has.mono fun _ member => List.mem_cons_of_mem _ member⟩
  rcases List.mem_cons.mp member with rfl | later
  · rw [failed] at key_eq
    cases key_eq
  · exact ⟨other, later, key, key_eq, bytes_eq⟩

theorem hasKey_cons_of_ok {segments : Segments} {record : Record} {records : List Record}
    {key : TemporaryKey} (made : BTR_key segments record = .ok key) (bytes : List UInt8) :
    HasKey BTR_key segments (record :: records) bytes ↔
      key.bytes = bytes ∨ HasKey BTR_key segments records bytes := by
  constructor
  · rintro ⟨other, member, found, key_eq, bytes_eq⟩
    rcases List.mem_cons.mp member with rfl | later
    · obtain rfl := Except.ok.inj (made.symm.trans key_eq)
      exact .inl bytes_eq
    · exact .inr ⟨other, later, found, key_eq, bytes_eq⟩
  · rintro (bytes_eq | has)
    · exact ⟨record, List.mem_cons_self, key, made, bytes_eq⟩
    · exact has.mono fun _ member => List.mem_cons_of_mem _ member

/-- The scan finds out whether a record has the key, unless the key of a record cannot be made. -/
theorem scanEqual_spec (segments : Segments) (key1 : TemporaryKey) (records : List Record) :
    (scanEqual BTR_key segments key1 records = .ok true ∧
        HasKey BTR_key segments records key1.bytes) ∨
      (scanEqual BTR_key segments key1 records = .ok false ∧
        ¬ HasKey BTR_key segments records key1.bytes) ∨
      ∃ raised, scanEqual BTR_key segments key1 records = .error raised ∧
        raised.record ∈ records ∧ Fails BTR_key segments raised.record raised.result := by
  induction records with
  | nil => exact .inr (.inl ⟨rfl, fun ⟨_, member, _⟩ => nomatch member⟩)
  | cons rec2 rest ih =>
      have later : (∃ raised, scanEqual BTR_key segments key1 rest = .error raised ∧
          raised.record ∈ rest ∧ Fails BTR_key segments raised.record raised.result) →
          ∃ raised, scanEqual BTR_key segments key1 rest = .error raised ∧
            raised.record ∈ rec2 :: rest ∧ Fails BTR_key segments raised.record raised.result :=
        fun ⟨raised, raised_eq, member, failed⟩ =>
          ⟨raised, raised_eq, List.mem_cons_of_mem _ member, failed⟩
      rw [scanEqual]
      cases made : BTR_key segments rec2 with
      | error result =>
          dsimp only
          rw [hasKey_cons_of_error made]
          by_cases conversion : result = .idx_e_conversion
          · rw [if_pos conversion]
            exact ih.imp id (Or.imp id later)
          · rw [if_neg conversion]
            exact .inr (.inr ⟨_, rfl, List.mem_cons_self, made, conversion⟩)
      | ok key2 =>
          dsimp only
          rw [hasKey_cons_of_ok made]
          by_cases same : key_equal key1 key2 = true
          · rw [if_pos same]
            exact .inl ⟨rfl, .inl ((key_equal_iff key1 key2).mp same).symm⟩
          · rw [if_neg same]
            have apart : key2.bytes ≠ key1.bytes := fun bytes_eq =>
              same ((key_equal_iff key1 key2).mpr bytes_eq.symm)
            rw [or_iff_right apart]
            exact ih.imp id (Or.imp id later)

/-- The removed keys are those that only going versions have, once each; an unfinished collection may
leave some. -/
structure Cleaned (BTR_key : Segments → Record → Except idx_e TemporaryKey)
    (going staying : List Record) (segments : Segments) (keys : List (List UInt8))
    (finished : Bool) : Prop where
  once : keys.Nodup
  sound : ∀ bytes ∈ keys, HasKey BTR_key segments going bytes ∧
    ¬ HasKey BTR_key segments staying bytes
  complete : finished = true → ∀ bytes, HasKey BTR_key segments going bytes →
    ¬ HasKey BTR_key segments staying bytes → bytes ∈ keys

/-- What the loop over the going versions does for one index. -/
structure Collects (BTR_key : Segments → Record → Except idx_e TemporaryKey) (rpb_number : Nat)
    (going staying : List Record) (i : Nat) (segments : Segments) (before : Collection)
    (result : Collection × Option (Raised Record)) (removals : List Removal) : Prop where
  removed_eq : result.1.removed = before.removed ++ removals
  kept : OthersKept i before.root result.1.root
  of_index : ∀ removal ∈ removals, removal.idx_id = i ∧ removal.iib_number = rpb_number
  once : (removals.map (·.key.bytes)).Nodup
  sound : ∀ removal ∈ removals, HasKey BTR_key segments going removal.key.bytes ∧
    ¬ HasKey BTR_key segments staying removal.key.bytes
  complete : result.2.isNone = true → ∀ bytes, HasKey BTR_key segments going bytes →
    ¬ HasKey BTR_key segments staying bytes → bytes ∈ removals.map (·.key.bytes)
  raised : ∀ raised, result.2 = some raised →
    (raised.record ∈ going ∨ raised.record ∈ staying) ∧
      Fails BTR_key segments raised.record raised.result

variable {going stack2 staying : List Record} {rec1 : Record} {i : Nat} {segments : Segments}
  {before : Collection} {result : Collection × Option (Raised Record)} {removals : List Removal}

/-- A version that is passed over, as others have its key, if it has one. -/
theorem Collects.skip
    (collects : Collects BTR_key rpb_number stack2 staying i segments before result removals)
    (others : ∀ bytes, HasKey BTR_key segments (rec1 :: stack2) bytes →
      ¬ HasKey BTR_key segments staying bytes → HasKey BTR_key segments stack2 bytes) :
    Collects BTR_key rpb_number (rec1 :: stack2) staying i segments before result removals where
  removed_eq := collects.removed_eq
  kept := collects.kept
  of_index := collects.of_index
  once := collects.once
  sound removal member :=
    let ⟨has, gone⟩ := collects.sound removal member
    ⟨has.mono fun _ later => List.mem_cons_of_mem _ later, gone⟩
  complete finished bytes has gone := collects.complete finished bytes (others bytes has gone) gone
  raised raised raised_eq :=
    let ⟨member, failed⟩ := collects.raised raised raised_eq
    ⟨member.imp (List.mem_cons_of_mem _) id, failed⟩

theorem collects_raised {raised : Raised Record}
    (member : raised.record ∈ going ∨ raised.record ∈ staying)
    (failed : Fails BTR_key segments raised.record raised.result) :
    Collects BTR_key rpb_number going staying i segments before (before, some raised) [] where
  removed_eq := (List.append_nil _).symm
  kept := OthersKept.refl i _
  of_index := nofun
  once := List.nodup_nil
  sound := nofun
  complete := nofun
  raised other other_eq := by
    obtain rfl := Option.some.inj other_eq
    exact ⟨member, failed⟩

/-- A key that no other version has is removed first. -/
theorem Collects.remove {removal : Removal} {key1 : TemporaryKey}
    (made : BTR_key segments rec1 = .ok key1) (removal_key : removal.key = key1)
    (removal_of : removal.idx_id = i ∧ removal.iib_number = rpb_number)
    (not_again : ¬ HasKey BTR_key segments stack2 key1.bytes)
    (gone : ¬ HasKey BTR_key segments staying key1.bytes)
    (collects : Collects BTR_key rpb_number stack2 staying i segments
      (before.BTR_remove lowered removal) result removals) :
    Collects BTR_key rpb_number (rec1 :: stack2) staying i segments before result
      (removal :: removals) where
  removed_eq := by
    rw [collects.removed_eq]
    exact List.append_assoc _ [removal] _
  kept := by
    refine OthersKept.trans ?_ collects.kept
    rw [Collection.BTR_remove]
    dsimp only
    cases lowered (before.removed ++ [removal]) with
    | none => exact OthersKept.refl i _
    | some number =>
        rw [removal_of.1]
        exact othersKept_setRoot i number before.root
  of_index := List.forall_mem_cons.mpr ⟨removal_of, collects.of_index⟩
  once := by
    rw [List.map_cons, List.nodup_cons]
    refine ⟨fun member => ?_, collects.once⟩
    obtain ⟨other, other_mem, bytes_eq⟩ := List.mem_map.mp member
    rw [removal_key] at bytes_eq
    exact not_again (bytes_eq ▸ (collects.sound other other_mem).1)
  sound := by
    refine List.forall_mem_cons.mpr ⟨?_, fun other member => ?_⟩
    · rw [removal_key]
      exact ⟨(hasKey_cons_of_ok made _).mpr (.inl rfl), gone⟩
    · obtain ⟨has, other_gone⟩ := collects.sound other member
      exact ⟨has.mono fun _ later => List.mem_cons_of_mem _ later, other_gone⟩
  complete finished bytes has absent := by
    rw [List.map_cons, List.mem_cons, removal_key]
    rcases (hasKey_cons_of_ok made bytes).mp has with same | later
    · exact .inl same.symm
    · exact .inr (collects.complete finished bytes later absent)
  raised raised raised_eq :=
    let ⟨member, failed⟩ := collects.raised raised raised_eq
    ⟨member.imp (List.mem_cons_of_mem _) id, failed⟩

/-- The index is still described after a removal. -/
theorem describes_remove {slot : Slot} (described : Describes before.root i segments slot)
    {removal : Removal} (removal_id : removal.idx_id = i) :
    ∃ slot, Describes (before.BTR_remove lowered removal).root i segments slot := by
  rw [Collection.BTR_remove]
  dsimp only
  cases lowered (before.removed ++ [removal]) with
  | none => exact ⟨slot, described⟩
  | some number =>
      rw [removal_id]
      exact ⟨_, described.setRoot number⟩

/-- The loop over the going versions removes from an index the keys that only they have. -/
theorem collectIndex_spec (going : List Record) {idx : IndexDesc} (idx_id : idx.idx_id = i)
    (segments_eq : idx.segments = segments) {slot : Slot}
    (described : Describes before.root i segments slot) :
    ∃ removals, Collects BTR_key rpb_number going staying i segments before
      (collectIndex BTR_key lowered rpb_number staying i going idx before) removals := by
  induction going generalizing idx before slot with
  | nil =>
      exact ⟨[], (List.append_nil _).symm, OthersKept.refl i _, nofun, List.nodup_nil, nofun,
        fun _ _ ⟨_, member, _⟩ => (nomatch member), nofun⟩
  | cons rec1 stack2 ih =>
      rw [collectIndex, segments_eq]
      cases made : BTR_key segments rec1 with
      | error result =>
          dsimp only
          by_cases conversion : result = .idx_e_conversion
          · rw [if_pos conversion]
            obtain ⟨removals, collects⟩ := ih idx_id segments_eq described
            exact ⟨removals, collects.skip fun bytes has _ => (hasKey_cons_of_error made bytes).mp has⟩
          · rw [if_neg conversion]
            exact ⟨[], collects_raised (.inl List.mem_cons_self) ⟨made, conversion⟩⟩
      | ok key1 =>
          dsimp only
          rcases scanEqual_spec segments key1 stack2 with
            ⟨scan_eq, again⟩ | ⟨scan_eq, not_again⟩ | ⟨raised, scan_eq, member, failed⟩
          · rw [scan_eq]
            dsimp only
            obtain ⟨removals, collects⟩ := ih idx_id segments_eq described
            refine ⟨removals, collects.skip fun bytes has _ => ?_⟩
            rcases (hasKey_cons_of_ok made bytes).mp has with rfl | later
            · exact again
            · exact later
          · rw [scan_eq]
            dsimp only
            rcases scanEqual_spec segments key1 staying with
              ⟨stay_eq, stays⟩ | ⟨stay_eq, gone⟩ | ⟨raised, stay_eq, member, failed⟩
            · rw [stay_eq]
              dsimp only
              obtain ⟨removals, collects⟩ := ih idx_id segments_eq described
              refine ⟨removals, collects.skip fun bytes has absent => ?_⟩
              rcases (hasKey_cons_of_ok made bytes).mp has with rfl | later
              · exact absurd stays absent
              · exact later
            · rw [stay_eq]
              dsimp only
              let removal : Removal := ⟨idx.idx_id, idx.idx_root, key1, rpb_number⟩
              obtain ⟨slot, described⟩ :=
                @describes_remove lowered i segments before slot described removal idx_id
              have next_spec : ∀ next, next = (if stack2.isEmpty then idx
                  else (BTR_description (before.BTR_remove lowered removal).root i).getD idx) →
                  next.idx_id = i ∧ next.segments = segments := by
                rintro next rfl
                split_ifs
                · exact ⟨idx_id, segments_eq⟩
                · cases description_eq :
                    BTR_description (before.BTR_remove lowered removal).root i with
                  | none => exact ⟨idx_id, segments_eq⟩
                  | some next =>
                      exact ⟨description_id description_eq,
                        described.segments_of_description description_eq⟩
              obtain ⟨next_id, next_segments⟩ := next_spec _ rfl
              obtain ⟨removals, collects⟩ := ih next_id next_segments described
              exact ⟨removal :: removals,
                collects.remove made rfl ⟨idx_id, rfl⟩ not_again gone⟩
            · rw [stay_eq]
              exact ⟨[], collects_raised (.inr member) failed⟩
          · rw [scan_eq]
            exact ⟨[], collects_raised (.inl (List.mem_cons_of_mem _ member)) failed⟩

/-- The removals of an index among those of all. -/
theorem removedFrom_append (root other : RootPage) (front back : List Removal) (id : Nat) :
    Collection.removedFrom ⟨root, front ++ back⟩ id =
      Collection.removedFrom ⟨other, front⟩ id ++ Collection.removedFrom ⟨other, back⟩ id := by
  rw [Collection.removedFrom, List.filter_append, List.map_append]
  rfl

theorem removedFrom_of_index {root : RootPage} {removals : List Removal} {i : Nat}
    (of_index : ∀ removal ∈ removals, removal.idx_id = i) (id : Nat) :
    Collection.removedFrom ⟨root, removals⟩ id =
      if id = i then removals.map (·.key.bytes) else [] := by
  rw [Collection.removedFrom]
  split_ifs with same
  · rw [List.filter_eq_self.mpr fun removal member =>
      decide_eq_true ((of_index removal member).trans same.symm)]
  · rw [List.filter_eq_nil_iff.mpr fun removal member removed =>
      same ((of_decide_eq_true removed).symm.trans (of_index removal member))]
    rfl

/-- What the loop over the indexes does from one on. -/
structure CollectsFrom (BTR_key : Segments → Record → Except idx_e TemporaryKey) (rpb_number : Nat)
    (going staying : List Record) (root : RootPage) (count i : Nat) (before : Collection)
    (result : Collection × Option (Raised Record)) (removals : List Removal) : Prop where
  removed_eq : result.1.removed = before.removed ++ removals
  of_index : ∀ removal ∈ removals, i ≤ removal.idx_id ∧ removal.iib_number = rpb_number ∧
    (BTR_description root removal.idx_id).isSome = true
  cleaned : ∀ j idx, BTR_description root j = some idx → i ≤ j → j < i + count →
    Cleaned BTR_key going staying idx.segments (Collection.removedFrom ⟨root, removals⟩ j)
      result.2.isNone
  raised : ∀ raised, result.2 = some raised → ∃ j idx, BTR_description root j = some idx ∧
    (raised.record ∈ going ∨ raised.record ∈ staying) ∧
      Fails BTR_key idx.segments raised.record raised.result

theorem Collects.cleaned
    (collects : Collects BTR_key rpb_number going staying i segments before result removals)
    {finished : Bool} (finished_imp : finished = true → result.2.isNone = true) :
    Cleaned BTR_key going staying segments (removals.map (·.key.bytes)) finished where
  once := collects.once
  sound bytes member := by
    obtain ⟨removal, removal_mem, rfl⟩ := List.mem_map.mp member
    exact collects.sound removal removal_mem
  complete finished := collects.complete (finished_imp finished)

/-- Each index of the page is collected once, and no other one. -/
theorem collectFrom_spec (count : Nat) {root : RootPage}
    (flags_lt : ∀ slot ∈ root.irt_rpt, slot.irt_flags < 2 ^ 8)
    (same : ∀ j, i ≤ j → before.root.irt_rpt[j]? = root.irt_rpt[j]?)
    (bytes_eq : before.root.bytes = root.bytes) :
    ∃ removals, CollectsFrom BTR_key rpb_number going staying root count i before
      (collectFrom BTR_key lowered rpb_number going staying count i before) removals := by
  induction count generalizing i before with
  | zero =>
      exact ⟨[], (List.append_nil _).symm, nofun, fun j idx _ from_i to_i => by omega, nofun⟩
  | succ count ih =>
      have description_eq : BTR_description before.root i = BTR_description root i := by
        rw [BTR_description, BTR_description, same i (Nat.le_refl i), bytes_eq]
      rw [collectFrom, description_eq]
      cases described : BTR_description root i with
      | none =>
          dsimp only
          obtain ⟨removals, later⟩ := @ih (i + 1) before (fun j from_next => same j (by omega)) bytes_eq
          refine ⟨removals, later.removed_eq, fun removal member => ?_, fun j idx there from_i to_i => ?_,
            later.raised⟩
          · obtain ⟨from_next, rest⟩ := later.of_index removal member
            exact ⟨by omega, rest⟩
          · have apart : j ≠ i := fun same => by
              rw [same, described] at there
              cases there
            exact later.cleaned j idx there (by omega) (by omega)
      | some idx =>
          dsimp only
          obtain ⟨slot, slot_described⟩ := exists_describes flags_lt described
          have before_described : Describes before.root i idx.segments slot :=
            ⟨(same i (Nat.le_refl i)).trans slot_described.slot_eq, slot_described.built,
              slot_described.flags_lt, bytes_eq ▸ slot_described.segments_eq⟩
          obtain ⟨removals, collects⟩ := @collectIndex_spec _ BTR_key lowered rpb_number staying i
            idx.segments before going idx (description_id described) rfl slot before_described
          generalize collectIndex BTR_key lowered rpb_number staying i going idx before = result
            at collects ⊢
          obtain ⟨collection, raised⟩ := result
          have of_index : ∀ removal ∈ removals, i ≤ removal.idx_id ∧
              removal.iib_number = rpb_number ∧
              (BTR_description root removal.idx_id).isSome = true := by
            intro removal member
            obtain ⟨removal_id, number_eq⟩ := collects.of_index removal member
            exact ⟨removal_id.ge, number_eq, by rw [removal_id, described]; rfl⟩
          have removed_here : ∀ id, Collection.removedFrom ⟨root, removals⟩ id =
              if id = i then removals.map (·.key.bytes) else [] :=
            removedFrom_of_index fun removal member => (collects.of_index removal member).1
          cases raised with
          | some raised =>
              dsimp only
              refine ⟨removals, collects.removed_eq, of_index, fun j other there from_i _ => ?_,
                fun found found_eq => ⟨i, idx, described, collects.raised found found_eq⟩⟩
              rw [removed_here]
              split_ifs with at_i
              · subst at_i
                obtain rfl := Option.some.inj (described.symm.trans there)
                exact collects.cleaned id
              · exact ⟨List.nodup_nil, nofun, nofun⟩
          | none =>
              dsimp only
              obtain ⟨rest, later⟩ := @ih (i + 1) collection
                (fun j from_next => (collects.kept.slots_eq j (by omega)).trans (same j (by omega)))
                (collects.kept.bytes_eq.trans bytes_eq)
              refine ⟨removals ++ rest, ?_, ?_, fun j other there from_i to_i => ?_, later.raised⟩
              · rw [later.removed_eq, collects.removed_eq, List.append_assoc]
              · refine List.forall_mem_append.mpr ⟨of_index, fun removal member => ?_⟩
                obtain ⟨from_next, others⟩ := later.of_index removal member
                exact ⟨by omega, others⟩
              · rw [removedFrom_append root root, removed_here]
                split_ifs with at_i
                · subst at_i
                  obtain rfl := Option.some.inj (described.symm.trans there)
                  have none_later : Collection.removedFrom ⟨root, rest⟩ j = [] := by
                    rw [Collection.removedFrom, List.filter_eq_nil_iff.mpr fun removal member at_j => ?_]
                    · rfl
                    · have from_next := (later.of_index removal member).1
                      have := of_decide_eq_true at_j
                      omega
                  rw [none_later, List.append_nil]
                  exact collects.cleaned fun _ => rfl
                · rw [List.nil_append]
                  exact later.cleaned j other there (by omega) (by omega)

/-- `IDX_garbage_collect` never removes a key that a staying version has, and no key twice; unless the
key of a version cannot be made, it removes all keys that only going versions have. -/
theorem going_keys_removed (BTR_key : Segments → Record → Except idx_e TemporaryKey)
    (lowered : List Removal → Option Nat) (rpb_number : Nat) (root : RootPage)
    (flags_lt : ∀ slot ∈ root.irt_rpt, slot.irt_flags < 2 ^ 8) (going staying : List Record) :
    let result := IDX_garbage_collect BTR_key lowered rpb_number root going staying
    (∀ removal ∈ result.1.removed, removal.iib_number = rpb_number ∧
        (BTR_description root removal.idx_id).isSome = true) ∧
      (∀ i idx, BTR_description root i = some idx →
        Cleaned BTR_key going staying idx.segments (result.1.removedFrom i) result.2.isNone) ∧
      ∀ raised, result.2 = some raised → ∃ i idx, BTR_description root i = some idx ∧
        (raised.record ∈ going ∨ raised.record ∈ staying) ∧
          Fails BTR_key idx.segments raised.record raised.result := by
  intro result
  obtain ⟨removals, collects⟩ := @collectFrom_spec _ BTR_key lowered rpb_number going staying 0
    ⟨root, []⟩ root.irt_rpt.length root flags_lt (fun _ _ => rfl) rfl
  have removed_eq : result.1.removed = removals := collects.removed_eq
  refine ⟨fun removal member => ?_, fun i idx described => ?_, collects.raised⟩
  · exact (collects.of_index removal (removed_eq ▸ member)).2
  · have i_lt : i < 0 + root.irt_rpt.length := by
      by_contra beyond
      rw [BTR_description, List.getElem?_eq_none (by omega)] at described
      cases described
    have cleaned := collects.cleaned i idx described (Nat.zero_le i) i_lt
    rw [← removed_eq] at cleaned
    exact cleaned

end Loops

/-! ## Two indexes of one segment -/

/-- The key of an index of one segment, from the compressed fields of the record. -/
def fieldKey (segments : Segments) (record : List (List UInt8)) : Except idx_e TemporaryKey :=
  let bytes := record.getD (segments.idx_rpt.headD (0, 0)).1 []
  if 1024 ≤ bytes.length then .error .idx_e_keytoobig
  else .ok ⟨bytes.length, bytes, Nat.le_refl _⟩

theorem fieldKey_of_long {field : List UInt8} (long : 1024 ≤ field.length)
    (rest : List (List UInt8)) :
    fieldKey ⟨1, 0, [(0, 0)]⟩ (field :: rest) = .error .idx_e_keytoobig := if_pos long

/-- Indexes of the fields 0 and 1. -/
def twoIndexes : RootPage where
  irt_rpt := [⟨200, 0, 4088, 1, 0⟩, ⟨201, 0, 4080, 1, 0⟩]
  bytes := fun place => if place = 4080 then 1 else 0

/-- Doubled keys go once, and the key of the staying version stays. -/
theorem doubled_keys_removed_once :
    let result := IDX_garbage_collect fieldKey (fun _ => none) 7 twoIndexes
      [[[5], [7]], [[5], [8]], [[6], [7]]] [[[6], [9]]]
    result.1.removedFrom 0 = [[5]] ∧ result.1.removedFrom 1 = [[8], [7]] ∧
      Cleaned fieldKey [[[5], [7]], [[5], [8]], [[6], [7]]] [[[6], [9]]] ⟨1, 0, [(1, 0)]⟩
        (result.1.removedFrom 1) true := by
  intro result
  refine ⟨by decide, by decide, ?_⟩
  exact (going_keys_removed fieldKey (fun _ => none) 7 twoIndexes (by decide)
    [[[5], [7]], [[5], [8]], [[6], [7]]] [[[6], [9]]]).2.1 1 ⟨1, 201, ⟨1, 0, [(1, 0)]⟩⟩ (by decide)

/-- A going version with a key that is too big for the first index keeps its key in the second. -/
theorem key_left_behind :
    let going : List (List (List UInt8)) := [[List.replicate 1024 65, [7]]]
    let result := IDX_garbage_collect fieldKey (fun _ => none) 7 twoIndexes going []
    (BTR_description twoIndexes 1).map IndexDesc.segments = some ⟨1, 0, [(1, 0)]⟩ ∧
      HasKey fieldKey ⟨1, 0, [(1, 0)]⟩ going [7] ∧ ¬ HasKey fieldKey ⟨1, 0, [(1, 0)]⟩ [] [7] ∧
      [7] ∉ result.1.removedFrom 1 := by
  intro going result
  refine ⟨by decide, ⟨_, List.mem_singleton_self _, ⟨1, [7], Nat.le_refl _⟩, rfl, rfl⟩,
    fun ⟨_, member, _⟩ => (nomatch member), ?_⟩
  have described : BTR_description twoIndexes 0 = some ⟨0, 200, ⟨1, 0, [(0, 0)]⟩⟩ := by decide
  have too_big : fieldKey ⟨1, 0, [(0, 0)]⟩ [List.replicate 1024 65, [7]] =
      .error .idx_e_keytoobig := fieldKey_of_long (List.length_replicate ▸ Nat.le_refl _) _
  have stopped : result =
      (⟨twoIndexes, []⟩, some ⟨.idx_e_keytoobig, [List.replicate 1024 65, [7]]⟩) := by
    change collectFrom fieldKey _ 7 going [] 2 0 ⟨twoIndexes, []⟩ = _
    rw [collectFrom]
    dsimp only
    rw [described]
    dsimp only
    rw [collectIndex, too_big]
    rfl
  rw [stopped]
  exact List.not_mem_nil

end IdxGarbage
end Firebird
