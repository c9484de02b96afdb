import Firebird.Jrd.Sorting.Pairs
import Firebird.Library.ByteMemory

/-!
# Records in physical order

`order` moves the records of a buffer to its start, in the order of their pointers.  What would be
overwritten goes to the place of the record that is moved, and its pointer follows it.
-/

namespace Firebird

open ByteMemory

/-- The memory of a sort as `order` sees it; longwords are counted from `m_last_record` on. -/
structure SortMemory where
  /-- The longwords of a record with its pointer back. -/
  m_longs : Nat
  /-- The number of records that were put. -/
  count : Nat
  /-- The address of the pointer area. -/
  m_first_pointer : Nat
  longs : Nat → UInt32
  /-- The longwords that pointers show to. -/
  pointers : Nat → Option Nat

namespace SortMemory

/-- `SIZEOF_SR_BCKPTR_IN_LONGS`. -/
def bckptrLongs : Nat := 2

/-- The longwords of a pointer. -/
def pointerLongs (address : Nat) : List UInt32 :=
  [UInt32.ofNat address, UInt32.ofNat (address / 2 ^ 32)]

/-- `sr_bckptr` of the record at a longword. -/
def bckptr (longs : Nat → UInt32) (record : Nat) : Nat :=
  (longs record).toNat + 2 ^ 32 * (longs (record + 1)).toNat

/-- The state of the loop of `order`. -/
structure Progress where
  longs : Nat → UInt32
  pointers : Nat → Option Nat
  lower_limit : Nat
  output : Nat

variable (memory : SortMemory)

/-- The longwords of a record in a run. -/
def keyLength : Nat := memory.m_longs - bckptrLongs

/-- `m_end_memory`. -/
def m_end_memory : Nat := memory.count * memory.m_longs

/-- The address of a pointer. -/
def slotAddress (number : Nat) : Nat := memory.m_first_pointer + 8 * number

/-- The number of the pointer at an address. -/
def slotNumber (address : Nat) : Nat := (address - memory.m_first_pointer) / 8

/-- Advance the lower limit over deleted and used records. -/
def advance (longs : Nat → UInt32) : Nat → Nat → Nat
  | 0, lower_limit => lower_limit
  | left + 1, lower_limit =>
      if bckptr longs lower_limit = 0 ∧ lower_limit < memory.m_end_memory then
        advance longs left (lower_limit + memory.m_longs)
      else lower_limit

/-- Move the record of one pointer to the output. -/
def moveRecord (progress : Progress) (ptr : Nat) : Progress :=
  match progress.pointers ptr with
  | none => progress
  | some key =>
      let record := key - bckptrLongs
      let longs := progress.longs
      let output := progress.output
      let lower_limit := memory.advance longs memory.count progress.lower_limit
      if key = lower_limit then
        { progress with
          longs := copy longs key longs output memory.keyLength
          lower_limit := lower_limit
          output := output + memory.keyLength }
      else if output + memory.m_longs - 1 ≤ lower_limit then
        let longs := store longs record (pointerLongs 0)
        { progress with
          longs := copy longs key longs output memory.keyLength
          lower_limit := lower_limit
          output := output + memory.keyLength }
      else
        let buffer := load longs key memory.keyLength
        let slot := memory.slotNumber (bckptr longs lower_limit)
        { longs := store (copy longs lower_limit longs record memory.m_longs) output buffer
          pointers := fun number => if number = slot then some key else progress.pointers number
          lower_limit := lower_limit + memory.m_longs
          output := output + memory.keyLength }

/-- The loop of `order`, from a pointer on. -/
def orderLoop : Nat → Progress → Nat → Progress
  | 0, progress, _ => progress
  | left + 1, progress, ptr => orderLoop left (memory.moveRecord progress ptr) (ptr + 1)

/-- `order`, with the memory that it leaves. -/
def order : (Nat → UInt32) × Nat :=
  let progress := memory.orderLoop memory.count ⟨memory.longs, memory.pointers, 0, 0⟩ 1
  (progress.longs, progress.output / memory.keyLength)

/-- What a pointer contributes to a run. -/
def value (number : Nat) : List UInt32 :=
  match memory.pointers number with
  | none => []
  | some key => load memory.longs key memory.keyLength

/-- `run_records`. -/
def runRecords : Nat := (List.range' 1 memory.count).countP fun number => (memory.pointers number).isSome

/-- The run that `orderAndSave` writes, into memory or as one block. -/
def orderAndSave (in_memory : Bool) : List UInt32 :=
  if in_memory then (List.range' 1 memory.count).flatMap memory.value
  else load memory.order.1 0 (memory.runRecords * memory.keyLength)

variable {memory}

theorem bckptr_congr {longs other : Nat → UInt32} {record place : Nat}
    (first : other place = longs record) (second : other (place + 1) = longs (record + 1)) :
    bckptr other place = bckptr longs record := by
  rw [bckptr, bckptr, first, second]

theorem slotNumber_slotAddress (number : Nat) :
    memory.slotNumber (memory.slotAddress number) = number := by
  rw [slotNumber, slotAddress, Nat.add_sub_cancel_left, Nat.mul_div_cancel_left _ (by decide)]

theorem slotAddress_inj {left right : Nat} (same : memory.slotAddress left = memory.slotAddress right) :
    left = right := by
  rw [slotAddress, slotAddress] at same
  omega

theorem slotAddress_ne_zero {number : Nat} (first : 1 ≤ number) : memory.slotAddress number ≠ 0 := by
  rw [slotAddress]
  omega

/-- The records from `low` on are still in their places, and pointers from `ptr` on show to them. -/
structure Kept (memory : SortMemory) (values : Nat → List UInt32) (longs : Nat → UInt32)
    (pointers : Nat → Option Nat) (low ptr : Nat) : Prop where
  shown : ∀ number, ptr ≤ number → number ≤ memory.count → ∀ key, pointers number = some key →
    ∃ place, key = place * memory.m_longs + 2 ∧ low ≤ place ∧ place < memory.count ∧
      bckptr longs (place * memory.m_longs) = memory.slotAddress number ∧
      load longs key memory.keyLength = values number
  hidden : ∀ number, ptr ≤ number → number ≤ memory.count → pointers number = none →
    values number = []
  backs : ∀ place, low ≤ place → place < memory.count →
    bckptr longs (place * memory.m_longs) = 0 ∨
      ∃ number, ptr ≤ number ∧ number ≤ memory.count ∧
        pointers number = some (place * memory.m_longs + 2)

/-- The values of the pointers before `ptr` have been written. -/
structure Written (memory : SortMemory) (values : Nat → List UInt32) (progress : Progress)
    (ptr : Nat) (written : List UInt32) : Prop where
  lies : Lies progress.longs 0 written
  output : progress.output = written.length
  kept : ∃ low, progress.lower_limit = low * memory.m_longs ∧ progress.output ≤ progress.lower_limit ∧
    Kept memory values progress.longs progress.pointers low ptr

section

variable {values : Nat → List UInt32} {longs : Nat → UInt32} {pointers : Nat → Option Nat}
  {low ptr : Nat}

theorem mul_longs_lt {place other : Nat} (less : place < other) :
    place * memory.m_longs + memory.m_longs ≤ other * memory.m_longs := by
  rw [← Nat.succ_mul]
  exact Nat.mul_le_mul_right _ less

/-- The lower limit stops at a record that is still in use. -/
theorem Kept.advance (kept : Kept memory values longs pointers low ptr) (first : 1 ≤ ptr)
    (last : ptr ≤ memory.count) {key : Nat} (found : pointers ptr = some key) :
    ∃ stop, memory.advance longs memory.count (low * memory.m_longs) = stop * memory.m_longs ∧
      low ≤ stop ∧ bckptr longs (stop * memory.m_longs) ≠ 0 ∧
      Kept memory values longs pointers stop ptr := by
  obtain ⟨place, key_eq, above, inside, back, -⟩ := kept.shown ptr (Nat.le_refl _) last key found
  have used : bckptr longs (place * memory.m_longs) ≠ 0 := by
    rw [back]
    exact slotAddress_ne_zero first
  have search : ∀ left start, start ≤ place → place ≤ start + left →
      ∃ stop, memory.advance longs left (start * memory.m_longs) = stop * memory.m_longs ∧
        start ≤ stop ∧ stop ≤ place ∧ bckptr longs (stop * memory.m_longs) ≠ 0 ∧
        ∀ skipped, start ≤ skipped → skipped < stop →
          bckptr longs (skipped * memory.m_longs) = 0 := by
    intro left
    induction left with
    | zero =>
        intro start low_bound high_bound
        obtain rfl : start = place := by omega
        exact ⟨start, rfl, Nat.le_refl _, Nat.le_refl _, used, fun _ _ _ => by omega⟩
    | succ left ih =>
        intro start low_bound high_bound
        rw [SortMemory.advance]
        split
        · rename_i skips
          have differ : start ≠ place := by
            rintro rfl
            exact used skips.1
          obtain ⟨stop, run, from_start, to_place, stops, passed⟩ :=
            ih (start + 1) (by omega) (by omega)
          rw [Nat.succ_mul] at run
          refine ⟨stop, run, by omega, to_place, stops, fun skipped begins ends => ?_⟩
          rcases Nat.lt_or_eq_of_le begins with later | rfl
          · exact passed skipped later ends
          · exact skips.1
        · rename_i stays
          refine ⟨start, rfl, Nat.le_refl _, low_bound, fun zero => stays ⟨zero, ?_⟩,
            fun _ _ _ => by omega⟩
          rw [m_end_memory]
          have bound := @mul_longs_lt memory start memory.count (by omega)
          rcases Nat.eq_zero_or_pos memory.m_longs with nothing | some
          · rw [nothing, Nat.mul_zero] at zero used
            exact absurd zero used
          · omega
  obtain ⟨stop, run, from_low, to_place, stops, passed⟩ := search memory.count low above (by omega)
  refine ⟨stop, run, from_low, stops, ?_, kept.hidden, fun other begins => kept.backs other (by omega)⟩
  intro number begins ends other shows
  obtain ⟨spot, spot_key, spot_above, spot_inside, spot_back, rest⟩ :=
    kept.shown number begins ends other shows
  refine ⟨spot, spot_key, ?_, spot_inside, spot_back, rest⟩
  by_contra skipped
  have zero := passed spot spot_above (by omega)
  rw [spot_back] at zero
  exact slotAddress_ne_zero (by omega) zero

/-- Different pointers show to different records. -/
theorem Kept.place_ne (kept : Kept memory values longs pointers low ptr) {number other place spot : Nat}
    (begins : ptr ≤ number) (ends : number ≤ memory.count) (other_begins : ptr ≤ other)
    (other_ends : other ≤ memory.count) (shows : pointers number = some (place * memory.m_longs + 2))
    (other_shows : pointers other = some (spot * memory.m_longs + 2)) (differ : number ≠ other) :
    place ≠ spot := by
  rintro rfl
  obtain ⟨first, first_key, -, -, first_back, -⟩ := kept.shown number begins ends _ shows
  obtain ⟨second, second_key, -, -, second_back, -⟩ :=
    kept.shown other other_begins other_ends _ other_shows
  have same : first * memory.m_longs = second * memory.m_longs := by omega
  rw [same, second_back] at first_back
  exact differ (slotAddress_inj first_back).symm

theorem length_pointerLongs (address : Nat) : (pointerLongs address).length = 2 := rfl

theorem place_inj (some_longs : 3 ≤ memory.m_longs) {place other : Nat}
    (same : place * memory.m_longs + 2 = other * memory.m_longs + 2) : place = other :=
  Nat.eq_of_mul_eq_mul_right (by omega) (Nat.add_right_cancel same)

/-- What the memory behind the lower limit holds decides. -/
theorem Kept.frame (kept : Kept memory values longs pointers low ptr) {other : Nat → UInt32}
    (same : ∀ address, low * memory.m_longs ≤ address → other address = longs address) :
    Kept memory values other pointers low ptr := by
  have back : ∀ place, low ≤ place →
      bckptr other (place * memory.m_longs) = bckptr longs (place * memory.m_longs) := by
    intro place above
    have bound := Nat.mul_le_mul_right memory.m_longs above
    exact bckptr_congr (same _ bound) (same _ (Nat.le_succ_of_le bound))
  refine ⟨fun number begins ends key shows => ?_, kept.hidden, fun place above inside => ?_⟩
  · obtain ⟨place, rfl, above, inside, shows_back, loaded⟩ := kept.shown number begins ends key shows
    have bound := Nat.mul_le_mul_right memory.m_longs above
    refine ⟨place, rfl, above, inside, (back place above).trans shows_back, ?_⟩
    exact (load_congr fun cell _ => same _ (by omega)).trans loaded
  · rw [back place above]
    exact kept.backs place above inside

/-- The record of a pointer is taken, and its pointer back is nulled. -/
theorem Kept.used (kept : Kept memory values longs pointers low ptr) (some_longs : 3 ≤ memory.m_longs)
    (last : ptr ≤ memory.count) {place : Nat}
    (found : pointers ptr = some (place * memory.m_longs + 2)) :
    Kept memory values (store longs (place * memory.m_longs) (pointerLongs 0)) pointers low
      (ptr + 1) := by
  have apart : ∀ spot, spot ≠ place → ∀ address, spot * memory.m_longs ≤ address →
      address < spot * memory.m_longs + memory.m_longs →
      store longs (place * memory.m_longs) (pointerLongs 0) address = longs address := by
    intro spot differ address begins ends
    refine store_apart longs ?_
    rw [length_pointerLongs]
    rcases Nat.lt_or_gt_of_ne differ with before | behind
    · have bound := @mul_longs_lt memory _ _ before
      omega
    · have bound := @mul_longs_lt memory _ _ behind
      omega
  have back : ∀ spot, spot ≠ place →
      bckptr (store longs (place * memory.m_longs) (pointerLongs 0)) (spot * memory.m_longs) =
        bckptr longs (spot * memory.m_longs) := fun spot differ =>
    bckptr_congr (apart spot differ _ (Nat.le_refl _) (by omega))
      (apart spot differ _ (Nat.le_succ _) (by omega))
  refine ⟨fun number begins ends key shows => ?_, fun number begins => kept.hidden number (by omega),
    fun spot above inside => ?_⟩
  · obtain ⟨spot, rfl, above, inside, shows_back, loaded⟩ :=
      kept.shown number (by omega) ends key shows
    have differ := kept.place_ne (by omega) ends (Nat.le_refl _) last shows found (by omega)
    refine ⟨spot, rfl, above, inside, (back spot differ).trans shows_back, ?_⟩
    refine (load_congr fun cell cell_lt => apart spot differ _ (by omega) ?_).trans loaded
    rw [keyLength, bckptrLongs] at cell_lt
    omega
  · rcases eq_or_ne spot place with rfl | differ
    · left
      have zeros := load_store longs (spot * memory.m_longs) (pointerLongs 0)
      rw [show (pointerLongs 0).length = 1 + 1 from rfl, load_succ, load_succ] at zeros
      injection zeros with first rest
      injection rest with second
      rw [bckptr, first, second]
      rfl
    · rw [back spot differ]
      rcases kept.backs spot above inside with zero | ⟨number, begins, ends, shows⟩
      · exact .inl zero
      · refine .inr ⟨number, ?_, ends, shows⟩
        rcases Nat.lt_or_eq_of_le begins with later | rfl
        · exact later
        · rw [found] at shows
          exact absurd (place_inj some_longs (Option.some.inj shows)).symm differ

/-- The record of a pointer is taken, and that at the lower limit gets its place. -/
theorem Kept.exchanged (kept : Kept memory values longs pointers low ptr)
    (some_longs : 3 ≤ memory.m_longs) (last : ptr ≤ memory.count) {place : Nat}
    (found : pointers ptr = some (place * memory.m_longs + 2)) (above : low ≤ place)
    (inside : place < memory.count) (stops : bckptr longs (low * memory.m_longs) ≠ 0) :
    Kept memory values
      (copy longs (low * memory.m_longs) longs (place * memory.m_longs) memory.m_longs)
      (fun number => if number = memory.slotNumber (bckptr longs (low * memory.m_longs)) then
        some (place * memory.m_longs + 2) else pointers number) (low + 1) (ptr + 1) := by
  obtain ⟨slot, slot_begins, slot_ends, slot_shows⟩ :=
    (kept.backs low (Nat.le_refl _) (by omega)).resolve_left stops
  obtain ⟨spot, spot_key, -, -, slot_back, slot_value⟩ :=
    kept.shown slot slot_begins slot_ends _ slot_shows
  obtain rfl := place_inj some_longs spot_key
  rw [slot_back, slotNumber_slotAddress]
  have apart : ∀ spot, spot ≠ place → ∀ address, spot * memory.m_longs ≤ address →
      address < spot * memory.m_longs + memory.m_longs →
      copy longs (low * memory.m_longs) longs (place * memory.m_longs) memory.m_longs address =
        longs address := by
    intro spot differ address begins ends
    refine copy_apart longs longs ?_
    rcases Nat.lt_or_gt_of_ne differ with before | behind
    · have bound := @mul_longs_lt memory _ _ before
      omega
    · have bound := @mul_longs_lt memory _ _ behind
      omega
  have back : ∀ spot, spot ≠ place →
      bckptr (copy longs (low * memory.m_longs) longs (place * memory.m_longs) memory.m_longs)
        (spot * memory.m_longs) = bckptr longs (spot * memory.m_longs) := fun spot differ =>
    bckptr_congr (apart spot differ _ (Nat.le_refl _) (by omega))
      (apart spot differ _ (Nat.le_succ _) (by omega))
  have copied : ∀ start count, start + count ≤ memory.m_longs →
      load (copy longs (low * memory.m_longs) longs (place * memory.m_longs) memory.m_longs)
        (place * memory.m_longs + start) count = load longs (low * memory.m_longs + start) count :=
    fun start count => load_copy_inside longs longs
  refine ⟨fun number begins ends key shows => ?_, fun number begins ends shows => ?_,
    fun spot spot_above spot_inside => ?_⟩
  · by_cases at_slot : number = slot
    · rw [if_pos at_slot] at shows
      obtain rfl := Option.some.inj shows
      subst at_slot
      have differ := kept.place_ne slot_begins slot_ends (Nat.le_refl _) last slot_shows found
        (by omega)
      have pointer := copied 0 2 (by omega)
      rw [load_succ, load_succ, load_succ, load_succ] at pointer
      injection pointer with first rest
      injection rest with second
      refine ⟨place, rfl, by omega, inside, (bckptr_congr first second).trans slot_back, ?_⟩
      exact (copied 2 memory.keyLength (by rw [keyLength, bckptrLongs]; omega)).trans slot_value
    · rw [if_neg at_slot] at shows
      obtain ⟨spot, rfl, spot_above, spot_inside, shows_back, loaded⟩ :=
        kept.shown number (by omega) ends key shows
      have differ := kept.place_ne (by omega) ends (Nat.le_refl _) last shows found (by omega)
      have not_low := kept.place_ne (by omega) ends slot_begins slot_ends shows slot_shows at_slot
      refine ⟨spot, rfl, by omega, spot_inside, (back spot differ).trans shows_back, ?_⟩
      refine (load_congr fun cell cell_lt => apart spot differ _ (by omega) ?_).trans loaded
      rw [keyLength, bckptrLongs] at cell_lt
      omega
  · by_cases at_slot : number = slot
    · rw [if_pos at_slot] at shows
      exact absurd shows (Option.some_ne_none _)
    · rw [if_neg at_slot] at shows
      exact kept.hidden number (by omega) ends shows
  · rcases eq_or_ne spot place with rfl | differ
    · refine .inr ⟨slot, ?_, slot_ends, if_pos rfl⟩
      rcases Nat.lt_or_eq_of_le slot_begins with later | rfl
      · exact later
      · rw [found] at slot_shows
        have same := place_inj some_longs (Option.some.inj slot_shows)
        omega
    · rw [back spot differ]
      rcases kept.backs spot (by omega) spot_inside with zero | ⟨number, begins, ends, shows⟩
      · exact .inl zero
      · have not_slot : number ≠ slot := by
          rintro rfl
          rw [slot_shows] at shows
          have same := place_inj some_longs (Option.some.inj shows)
          omega
        refine .inr ⟨number, ?_, ends, by rw [if_neg not_slot]; exact shows⟩
        rcases Nat.lt_or_eq_of_le begins with later | rfl
        · exact later
        · rw [found] at shows
          exact absurd (place_inj some_longs (Option.some.inj shows)).symm differ

theorem Kept.skip (kept : Kept memory values longs pointers low ptr) (nulled : pointers ptr = none) :
    Kept memory values longs pointers low (ptr + 1) := by
  refine ⟨fun number begins => kept.shown number (by omega), fun number begins =>
    kept.hidden number (by omega), fun place above inside => ?_⟩
  rcases kept.backs place above inside with zero | ⟨number, begins, ends, shows⟩
  · exact .inl zero
  · refine .inr ⟨number, ?_, ends, shows⟩
    rcases Nat.lt_or_eq_of_le begins with later | rfl
    · exact later
    · rw [nulled] at shows
      exact absurd shows.symm (Option.some_ne_none _)

theorem lies_behind {longs : Nat → UInt32} {written value : List UInt32}
    (before : Lies longs 0 written) (behind : Lies longs written.length value) :
    Lies longs 0 (written ++ value) :=
  lies_append.mpr ⟨before, by rwa [Nat.zero_add]⟩

theorem Written.moveRecord {progress : Progress} {written : List UInt32}
    (so_far : Written memory values progress ptr written) (some_longs : 3 ≤ memory.m_longs)
    (first : 1 ≤ ptr) (last : ptr ≤ memory.count) :
    Written memory values (memory.moveRecord progress ptr) (ptr + 1) (written ++ values ptr) := by
  obtain ⟨lies, output, low, limit, room, kept⟩ := so_far
  rw [SortMemory.moveRecord]
  split
  · rename_i nulled
    rw [kept.hidden ptr (Nat.le_refl _) last nulled, List.append_nil]
    exact ⟨lies, output, low, limit, room, kept.skip nulled⟩
  · rename_i key found
    obtain ⟨stop, run, from_low, stops, kept⟩ := kept.advance first last found
    obtain ⟨place, rfl, above, inside, -, loaded⟩ := kept.shown ptr (Nat.le_refl _) last key found
    have size : (values ptr).length = memory.keyLength := by rw [← loaded, length_load]
    have length : memory.keyLength = memory.m_longs - 2 := rfl
    have ahead := Nat.mul_le_mul_right memory.m_longs from_low
    have behind := Nat.mul_le_mul_right memory.m_longs above
    have start : written.length ≤ stop * memory.m_longs := by omega
    have written_output : progress.output = written.length := output
    dsimp only
    rw [limit, run, bckptrLongs, Nat.add_sub_cancel]
    rw [if_neg (by omega), written_output]
    split
    · rename_i fits
      refine ⟨lies_behind ?_ ?_, by simp [size], stop, rfl, by dsimp only; omega, ?_⟩
      · refine lies.congr fun address _ inside_written => ?_
        dsimp only
        rw [copy_apart _ _ (by omega), store_apart _ (by omega)]
      · dsimp only
        rw [Lies, size, load_copy_start _ _ (Nat.le_refl _),
          load_store_apart _ (.inr (by rw [length_pointerLongs])), loaded]
      · refine (kept.used some_longs last found).frame fun address begins => ?_
        dsimp only
        rw [copy_apart _ _ (by omega)]
    · rename_i crowded
      refine ⟨lies_behind ?_ ?_, by simp [size], stop + 1, by rw [Nat.succ_mul],
        by dsimp only; omega, ?_⟩
      · refine lies.congr fun address _ inside_written => ?_
        dsimp only
        rw [store_apart _ (by omega), copy_apart _ _ (by omega)]
      · dsimp only
        rw [loaded]
        exact lies_store _ _ _
      · refine (kept.exchanged some_longs last found above inside stops).frame
          fun address begins => ?_
        rw [Nat.succ_mul] at begins
        dsimp only
        rw [store_apart _ (.inr (by rw [length_load]; omega))]

theorem Written.orderLoop {progress : Progress} {written : List UInt32} {left : Nat}
    (so_far : Written memory values progress ptr written) (some_longs : 3 ≤ memory.m_longs)
    (first : 1 ≤ ptr) (all : ptr + left = memory.count + 1) :
    Written memory values (memory.orderLoop left progress ptr) (ptr + left)
      (written ++ (List.range' ptr left).flatMap values) := by
  induction left generalizing progress ptr written with
  | zero =>
      rw [List.range'_zero, List.flatMap_nil, List.append_nil]
      exact so_far
  | succ left ih =>
      rw [SortMemory.orderLoop, List.range'_succ, List.flatMap_cons, ← List.append_assoc]
      have next := ih (so_far.moveRecord some_longs first (by omega)) (by omega) (by omega)
      rwa [Nat.add_right_comm, Nat.add_assoc] at next

theorem length_value (number : Nat) :
    (memory.value number).length = if (memory.pointers number).isSome then memory.keyLength else 0 := by
  rw [value]
  cases memory.pointers number with
  | none => rfl
  | some key => exact length_load _ _ _

theorem length_values (numbers : List Nat) : (numbers.flatMap memory.value).length =
    (numbers.countP fun number => (memory.pointers number).isSome) * memory.keyLength := by
  induction numbers with
  | nil => simp
  | cons number numbers ih =>
      rw [List.flatMap_cons, List.length_append, ih, length_value, List.countP_cons]
      split
      · rw [Nat.add_mul, Nat.one_mul, Nat.add_comm]
      · rw [Nat.zero_add, Nat.add_zero]

/-- `order` leaves the records as the copying path writes them. -/
theorem Kept.orderAndSave (kept : Kept memory memory.value memory.longs memory.pointers 0 1)
    (some_longs : 3 ≤ memory.m_longs) :
    memory.orderAndSave false = memory.orderAndSave true ∧ memory.order.2 = memory.runRecords := by
  have start : Written memory memory.value ⟨memory.longs, memory.pointers, 0, 0⟩ 1 [] :=
    ⟨lies_nil, rfl, 0, (Nat.zero_mul _).symm, Nat.le_refl _, kept⟩
  obtain ⟨lies, output, -⟩ := start.orderLoop some_longs (Nat.le_refl 1)
    (Nat.add_comm 1 memory.count)
  rw [List.nil_append] at lies output
  have positive : 0 < memory.keyLength := by
    rw [keyLength, bckptrLongs]
    omega
  constructor
  · rw [SortMemory.orderAndSave, SortMemory.orderAndSave, if_neg Bool.false_ne_true, if_pos rfl,
      runRecords, ← length_values]
    exact lies
  · rw [order]
    dsimp only
    rw [output, length_values, Nat.mul_div_cancel _ positive]
    rfl

end

end SortMemory

/-! ## From the sorted pointers -/

namespace SortBuffer

/-- The pointer and the pointer back of a record that is eliminated as a duplicate are nulled. -/
def reject (buffer : SortBuffer) (number : Nat) : SortBuffer :=
  { buffer with
    sr_bckptr :=
      match buffer.pointers number with
      | .record address => fun other => if other = address then none else buffer.sr_bckptr other
      | _ => buffer.sr_bckptr
    pointers := fun other => if other = number then .null else buffer.pointers other }

/-- The pointer back of a record as an address. -/
def bckptrAddress (buffer : SortBuffer) (address : Nat) : Nat :=
  match buffer.sr_bckptr address with
  | none => 0
  | some number => buffer.m_first_pointer + 8 * number

/-- The longwords of the record in a place, counted from the last record. -/
def recordLongs (buffer : SortBuffer) (place : Nat) : List UInt32 :=
  let address := buffer.count - 1 - place
  SortMemory.pointerLongs (buffer.bckptrAddress address) ++ buffer.sort_record address

/-- The memory of a buffer whose records have a length. -/
def layout (buffer : SortBuffer) (length : Nat) : SortMemory where
  m_longs := length
  count := buffer.count
  m_first_pointer := buffer.m_first_pointer
  longs := fun long => ((buffer.recordLongs (long / length))[long % length]?).getD 0
  pointers := fun number =>
    match buffer.pointers number with
    | .record address => some ((buffer.count - 1 - address) * length + 2)
    | _ => none

/-- The pointers that are not null show to records, which show back. -/
structure Culled (length : Nat) (buffer : SortBuffer) : Prop where
  linked : ∀ number, 1 ≤ number → number ≤ buffer.count → buffer.pointers number = .null ∨
    ∃ address < buffer.count, buffer.pointers number = .record address ∧
      buffer.sr_bckptr address = some number
  backs : ∀ address < buffer.count, buffer.sr_bckptr address = none ∨
    ∃ number, 1 ≤ number ∧ number ≤ buffer.count ∧ buffer.sr_bckptr address = some number ∧
      buffer.pointers number = .record address
  sized : ∀ address < buffer.count, (buffer.sort_record address).length + 2 = length
  some_longs : 3 ≤ length

section

variable {buffer : SortBuffer} {length : Nat}

/-- Every record has a pointer, since there are as many pointers as records. -/
theorem WellFormed.pointed (wellFormed : buffer.WellFormed length) {address : Nat}
    (inside : address < buffer.count) : ∃ number, 1 ≤ number ∧ number ≤ buffer.count ∧
      buffer.pointers number = .record address ∧ buffer.sr_bckptr address = some number := by
  choose target shown bound back using wellFormed.linked
  let shows : Fin buffer.count → Fin buffer.count := fun number =>
    ⟨target (number + 1) (Nat.succ_pos _) number.2, bound _ _ _⟩
  have injective : Function.Injective shows := by
    intro left right same
    have addresses := congrArg Fin.val same
    have left_back := back (left + 1) (Nat.succ_pos _) left.2
    have right_back := back (right + 1) (Nat.succ_pos _) right.2
    dsimp only [shows] at addresses
    rw [addresses, right_back] at left_back
    exact Fin.ext (Nat.succ.inj (Option.some.inj left_back)).symm
  obtain ⟨number, number_eq⟩ := (Finite.injective_iff_surjective.mp injective) ⟨address, inside⟩
  have address_eq := congrArg Fin.val number_eq
  dsimp only [shows] at address_eq
  refine ⟨number + 1, Nat.succ_pos _, number.2, ?_, ?_⟩
  · rw [shown _ (Nat.succ_pos _) number.2, address_eq]
  · rw [← address_eq]
    exact back _ _ _

theorem WellFormed.culled (wellFormed : buffer.WellFormed length) : Culled length buffer where
  linked := by
    intro number first last
    obtain ⟨address, shown, inside, back⟩ := wellFormed.linked number first last
    exact .inr ⟨address, inside, shown, back⟩
  backs := by
    intro address inside
    obtain ⟨number, first, last, shown, back⟩ := wellFormed.pointed inside
    exact .inr ⟨number, first, last, back, shown⟩
  sized := wellFormed.sized
  some_longs := wellFormed.some_longs

/-- Eliminated records have neither a pointer nor a pointer back. -/
theorem Culled.reject (culled : Culled length buffer) {number : Nat} (first : 1 ≤ number)
    (last : number ≤ buffer.count) : Culled length (buffer.reject number) := by
  refine ⟨fun other begins ends => ?_, fun address inside => ?_, culled.sized, culled.some_longs⟩
  · rcases eq_or_ne other number with rfl | differ
    · exact .inl (if_pos rfl)
    · have kept : (buffer.reject number).pointers other = buffer.pointers other := if_neg differ
      rw [kept]
      rcases culled.linked other begins ends with nulled | ⟨address, inside, shown, back⟩
      · exact .inl nulled
      · refine .inr ⟨address, inside, shown, ?_⟩
        rw [SortBuffer.reject]
        rcases culled.linked number first last with nulled | ⟨gone, -, gone_shown, gone_back⟩
        · rw [nulled]
          exact back
        · rw [gone_shown]
          dsimp only
          rw [if_neg, back]
          rintro rfl
          rw [back] at gone_back
          exact differ (Option.some.inj gone_back)
  · rcases culled.linked number first last with nulled | ⟨gone, -, gone_shown, gone_back⟩
    · have same : (buffer.reject number).sr_bckptr = buffer.sr_bckptr := by
        rw [SortBuffer.reject, nulled]
      rw [same]
      rcases culled.backs address inside with none | ⟨other, begins, ends, back, shown⟩
      · exact .inl none
      · refine .inr ⟨other, begins, ends, back, ?_⟩
        rw [SortBuffer.reject]
        dsimp only
        rw [if_neg, shown]
        rintro rfl
        rw [nulled] at shown
        exact SortPointer.noConfusion shown
    · have changed : (buffer.reject number).sr_bckptr address =
          if address = gone then none else buffer.sr_bckptr address := by
        rw [SortBuffer.reject, gone_shown]
      rw [changed]
      split
      · exact .inl rfl
      · rename_i differ
        rcases culled.backs address inside with none | ⟨other, begins, ends, back, shown⟩
        · exact .inl none
        · refine .inr ⟨other, begins, ends, back, ?_⟩
          rw [SortBuffer.reject]
          dsimp only
          rw [if_neg, shown]
          rintro rfl
          rw [gone_shown] at shown
          exact differ (SortPointer.record.inj shown).symm

theorem Culled.foldl_reject (culled : Culled length buffer) {rejected : List Nat}
    (inside : ∀ number ∈ rejected, 1 ≤ number ∧ number ≤ buffer.count) :
    Culled length (rejected.foldl SortBuffer.reject buffer) := by
  induction rejected generalizing buffer with
  | nil => exact culled
  | cons number rejected ih =>
      obtain ⟨first, last⟩ := inside number List.mem_cons_self
      exact ih (culled.reject first last) fun other member =>
        inside other (List.mem_cons_of_mem _ member)

theorem foldl_reject_fields (rejected : List Nat) :
    (rejected.foldl SortBuffer.reject buffer).count = buffer.count ∧
      (rejected.foldl SortBuffer.reject buffer).m_first_pointer = buffer.m_first_pointer := by
  induction rejected generalizing buffer with
  | nil => exact ⟨rfl, rfl⟩
  | cons number rejected ih => exact @ih (buffer.reject number)

theorem layout_pointers_null {number : Nat} (nulled : buffer.pointers number = .null) :
    (buffer.layout length).pointers number = none := by
  rw [layout]
  dsimp only
  rw [nulled]

theorem layout_pointers_record {number address : Nat}
    (shown : buffer.pointers number = .record address) :
    (buffer.layout length).pointers number = some ((buffer.count - 1 - address) * length + 2) := by
  rw [layout]
  dsimp only
  rw [shown]

theorem layout_longs (some_longs : 3 ≤ length) (place : Nat) {cell : Nat} (inside : cell < length) :
    (buffer.layout length).longs (place * length + cell) =
      ((buffer.recordLongs place)[cell]?).getD 0 := by
  rw [layout]
  dsimp only
  rw [Nat.mul_comm, Nat.mul_add_div (by omega), Nat.div_eq_of_lt inside, Nat.add_zero,
    Nat.mul_add_mod, Nat.mod_eq_of_lt inside]

theorem bckptr_layout (some_longs : 3 ≤ length) (place : Nat)
    (small : buffer.bckptrAddress (buffer.count - 1 - place) < 2 ^ 64) :
    SortMemory.bckptr (buffer.layout length).longs (place * length) =
      buffer.bckptrAddress (buffer.count - 1 - place) := by
  have low := @layout_longs buffer length some_longs place 0 (by omega)
  have high := @layout_longs buffer length some_longs place 1 (by omega)
  rw [Nat.add_zero] at low
  rw [SortMemory.bckptr, low, high, recordLongs, SortMemory.pointerLongs]
  simp only [List.cons_append, List.getElem?_cons_zero, List.getElem?_cons_succ, Option.getD_some,
    UInt32.toNat_ofNat']
  omega

/-- The records of a buffer in its memory. -/
theorem value_layout (culled : Culled length buffer) {number : Nat} (first : 1 ≤ number)
    (last : number ≤ buffer.count) : (buffer.layout length).value number = buffer.value number := by
  have some_longs := culled.some_longs
  rcases culled.linked number first last with nulled | ⟨address, inside, shown, -⟩
  · rw [SortMemory.value, layout_pointers_null nulled, value, nulled]
    rfl
  · have size := culled.sized address inside
    have long : (buffer.layout length).keyLength = (buffer.sort_record address).length := by
      rw [SortMemory.keyLength, SortMemory.bckptrLongs, layout]
      dsimp only
      omega
    rw [SortMemory.value, layout_pointers_record shown, value, shown, words]
    dsimp only
    rw [long]
    refine List.ext_getElem (length_load _ _ _) fun cell _ cell_lt => ?_
    have place : buffer.count - 1 - (buffer.count - 1 - address) = address := by omega
    have read := @layout_longs buffer length some_longs (buffer.count - 1 - address) (2 + cell)
      (by omega)
    rw [← Nat.add_assoc] at read
    simp only [load, List.getElem_map, List.getElem_range, read, recordLongs, place,
      SortMemory.pointerLongs, Nat.add_comm 2 cell]
    simp [List.getElem?_eq_getElem cell_lt]

/-- The memory of a buffer is one that `order` can start from. -/
theorem Culled.kept (culled : Culled length buffer)
    (small : buffer.m_first_pointer + 8 * buffer.count < 2 ^ 64) :
    SortMemory.Kept (buffer.layout length) (buffer.layout length).value (buffer.layout length).longs
      (buffer.layout length).pointers 0 1 := by
  have some_longs := culled.some_longs
  have place_back : ∀ address < buffer.count,
      buffer.count - 1 - (buffer.count - 1 - address) = address := fun address inside => by omega
  refine ⟨fun number first last key shows => ?_, fun number _ _ nulled => ?_,
    fun place _ inside => ?_⟩
  · have bound : number ≤ buffer.count := last
    rcases culled.linked number first last with nulled | ⟨address, inside, shown, back⟩
    · rw [layout_pointers_null nulled] at shows
      exact absurd shows.symm (Option.some_ne_none _)
    · have key_eq := @layout_pointers_record buffer length number address shown
      have address_eq : buffer.bckptrAddress address = buffer.m_first_pointer + 8 * number := by
        rw [bckptrAddress, back]
      refine ⟨buffer.count - 1 - address, Option.some.inj (shows.symm.trans key_eq), Nat.zero_le _,
        show buffer.count - 1 - address < buffer.count by omega, ?_, ?_⟩
      · refine (bckptr_layout some_longs _ ?_).trans ?_
        · rw [place_back address inside, address_eq]
          omega
        · rw [place_back address inside, address_eq]
          rfl
      · rw [SortMemory.value, shows]
  · rw [SortMemory.value, nulled]
  · have bound : place < buffer.count := inside
    rcases culled.backs (buffer.count - 1 - place) (by omega) with
      none | ⟨number, first, last, back, shown⟩
    · left
      have zero : buffer.bckptrAddress (buffer.count - 1 - place) = 0 := by rw [bckptrAddress, none]
      exact (bckptr_layout some_longs place (by rw [zero]; decide)).trans zero
    · refine .inr ⟨number, first, last, ?_⟩
      have spot : buffer.count - 1 - (buffer.count - 1 - place) = place := by omega
      rw [layout_pointers_record shown, spot]
      rfl

/-- Both ways of `orderAndSave` write the same run: the records that were not eliminated, in the
order of their pointers. -/
theorem orderAndSave_eq (wellFormed : buffer.WellFormed length) (rejected : List Nat)
    (inside : ∀ number ∈ rejected, 1 ≤ number ∧ number ≤ buffer.count)
    (small : buffer.m_first_pointer + 8 * buffer.count < 2 ^ 64) :
    let culled := rejected.foldl reject buffer
    (culled.layout length).orderAndSave false = (culled.layout length).orderAndSave true ∧
      (culled.layout length).orderAndSave true =
        (List.range' 1 buffer.count).flatMap culled.value ∧
      (culled.layout length).order.2 = (culled.layout length).runRecords := by
  intro culled
  obtain ⟨count, first_pointer⟩ := @foldl_reject_fields buffer rejected
  have formed : Culled length culled := wellFormed.culled.foldl_reject inside
  have kept := formed.kept (by rw [first_pointer, count]; exact small)
  obtain ⟨same, records⟩ := kept.orderAndSave formed.some_longs
  refine ⟨same, ?_, records⟩
  have layout_count : (culled.layout length).count = buffer.count := count
  rw [SortMemory.orderAndSave, if_pos rfl, layout_count]
  refine List.flatMap_congr fun number member => ?_
  obtain ⟨first, last⟩ := List.mem_range'_1.mp member
  exact value_layout formed first (by rw [count]; omega)

end

theorem orderAndSave_eq_twoRecords :
    (((twoRecords [7, 2] [7, 1]).swap 1 2).layout 4).orderAndSave false = [7, 1, 7, 2] := by
  have wellFormed : ((twoRecords [7, 2] [7, 1]).swap 1 2).WellFormed 4 :=
    (twoRecords_wellFormed rfl rfl).swap (by decide) (by decide) (by decide) (by decide)
  obtain ⟨same, written, -⟩ := orderAndSave_eq wellFormed []
    (fun _ member => absurd member List.not_mem_nil) (by decide)
  exact same.trans (written.trans rfl)

end SortBuffer

end Firebird
