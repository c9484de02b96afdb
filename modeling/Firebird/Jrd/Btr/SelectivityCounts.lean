import Firebird.Jrd.Btr.NodeRoundTrip
import Firebird.Jrd.Btr.SearchOrder
import Firebird.Jrd.Btr.Selectivity

/-!
# The two counts

At each entry the walk over the leaf pages and the load find the same number of a segment, except where
a page starts or where the data of an entry are missing.  There the load always finds the smaller one.
-/

namespace Firebird
namespace Selectivity

variable {descending : Bool} {segments : Nat}

/-! ## One comparison of two keys -/

/-- The number of the last segment before the first difference of the keys. -/
theorem scanSegments_eq (count stuff_count : Nat) (p1 p2 : List UInt8) :
    scanSegments count stuff_count p1 p2 =
      (if stuff_count < computePrefix p1 p2 then
          (p2.getD (stuff_count + 5 * ((computePrefix p1 p2 - 1 - stuff_count) / 5)) 0).toNat
        else count,
        p1.drop (computePrefix p1 p2), p2.drop (computePrefix p1 p2)) := by
  induction p1 generalizing count stuff_count p2 with
  | nil => cases p2 <;> rfl
  | cons byte1 p1 ih =>
      cases p2 with
      | nil => rfl
      | cons byte2 p2 =>
          rw [scanSegments, computePrefix]
          by_cases same : byte1 = byte2
          · rw [if_neg (not_not.mpr same), if_pos same]
            generalize shared_eq : computePrefix p1 p2 = shared
            cases stuff_count with
            | zero =>
                rw [if_pos rfl, ih, shared_eq, STUFF_COUNT, if_pos (Nat.succ_pos shared)]
                congr 1
                by_cases further : 4 < shared
                · have place_eq : 0 + 5 * ((shared + 1 - 1 - 0) / 5) =
                      4 + 5 * ((shared - 1 - 4) / 5) + 1 := by omega
                  rw [if_pos further, place_eq, List.getD_cons_succ]
                · have place_eq : 0 + 5 * ((shared + 1 - 1 - 0) / 5) = 0 := by omega
                  rw [if_neg further, place_eq, List.getD_cons_zero]
            | succ stuff_count =>
                rw [if_neg (Nat.succ_ne_zero stuff_count), Nat.add_sub_cancel, ih, shared_eq]
                congr 1
                by_cases further : stuff_count < shared
                · have place_eq : stuff_count + 1 + 5 * ((shared + 1 - 1 - (stuff_count + 1)) / 5) =
                      stuff_count + 5 * ((shared - 1 - stuff_count) / 5) + 1 := by omega
                  rw [if_pos further, if_pos (by omega), place_eq, List.getD_cons_succ]
                · rw [if_neg further, if_neg (by omega)]
          · rw [if_pos same, if_neg same]
            rfl

/-- Behind what two keys share, nothing is shared. -/
theorem computePrefix_drop (left right : List UInt8) :
    computePrefix (left.drop (computePrefix left right)) (right.drop (computePrefix left right)) = 0 := by
  induction left generalizing right with
  | nil => rfl
  | cons first left ih =>
      cases right with
      | nil => rfl
      | cons second right =>
          rw [computePrefix]
          by_cases same : first = second
          · rw [if_pos same]
            exact ih right
          · rw [if_neg same, List.drop_zero, List.drop_zero, computePrefix, if_neg same]

theorem eq_iff_drop (left right : List UInt8) :
    left.drop (computePrefix left right) = [] ∧ right.drop (computePrefix left right) = [] ↔
      left = right := by
  constructor
  · rintro ⟨left_nil, right_nil⟩
    calc left = left.take (computePrefix left right) ++ left.drop (computePrefix left right) :=
          (List.take_append_drop _ _).symm
      _ = right.take (computePrefix left right) ++ right.drop (computePrefix left right) := by
          rw [left_nil, right_nil, take_computePrefix]
      _ = right := List.take_append_drop _ _
  · rintro rfl
    rw [computePrefix_self, List.drop_length]
    exact ⟨rfl, rfl⟩

/-- Compared against all that is shared. -/
theorem segmentCount_shared (previous key : List UInt8) (behind : UInt8) :
    segmentCount descending previous (computePrefix previous key)
        (key.drop (computePrefix previous key)) behind =
      if previous = key then 0
      else shown descending
        (if computePrefix previous key % 5 = 0 then
          firstByte (key.drop (computePrefix previous key)) behind
        else (previous.getD (computePrefix previous key / 5 * 5) 0).toNat) := by
  have drops := eq_iff_drop previous key
  have nothing := computePrefix_drop previous key
  generalize computePrefix previous key = shared at drops nothing
  rw [segmentCount, STUFF_COUNT]
  dsimp only
  by_cases none_shared : shared = 0
  · subst none_shared
    rw [if_pos rfl, if_pos rfl, List.drop_zero, scanSegments_eq]
    rw [List.drop_zero, List.drop_zero] at nothing drops
    rw [nothing, if_neg (lt_irrefl 0), List.drop_zero, List.drop_zero]
    dsimp only
    rw [if_congr drops rfl rfl]
    rfl
  · rw [if_neg none_shared, scanSegments_eq, nothing, if_neg (Nat.not_lt_zero _), List.drop_zero,
      List.drop_zero]
    dsimp only
    rw [if_congr drops rfl rfl]
    have place_iff : shared / (4 + 1) * (4 + 1) = shared ↔ shared % 5 = 0 := by omega
    rw [if_congr place_iff rfl rfl]
    rfl

/-- Compared as a whole, at the start of a page. -/
theorem segmentCount_whole (previous key : List UInt8) (behind : UInt8) :
    segmentCount descending previous 0 key behind =
      if previous = key then 0
      else shown descending
        (if 0 < computePrefix previous key then
          (key.getD (5 * ((computePrefix previous key - 1) / 5)) 0).toNat
        else firstByte key behind) := by
  have drops := eq_iff_drop previous key
  rw [segmentCount, if_pos rfl, scanSegments_eq]
  dsimp only
  rw [if_congr drops rfl rfl, Nat.zero_add, Nat.sub_zero]
  rfl

/-- No flags fill a whole byte. -/
theorem flagsByte_le (node : IndexNode) : (flagsByte node).toNat ≤ 191 := by
  rw [flagsByte, Btn.IndexNode.flagsByte_eq]
  have flags_le := Btn.IndexNode.internalFlags_le
    { nodePointer := 0
      prefixLength := node.prefixLength
      length := node.length
      pageNumber := node.pageNumber
      data := 0
      recordNumber := node.recordNumber
      isEndBucket := node.isEndBucket
      isEndLevel := node.isEndLevel }
  omega

/-- What the two counts of an entry have to do with each other. -/
structure Counted (segments : Nat) (drifts : Prop) (counted loaded : Nat) : Prop where
  same : ¬ drifts → counted = loaded
  less : drifts → loaded < counted ∧ loaded < segments

variable {previous key : List UInt8} {key_length : Nat} {isr behind : UInt8}

/-- A key that is the start of the key before belongs to a descending index. -/
theorem KeyLe.not_shorter (ordered : KeyLe descending previous key)
    (different : previous ≠ key) (shorter : key.length = computePrefix previous key) :
    descending = true ∧ key.length < previous.length := by
  induction previous generalizing key with
  | nil =>
      cases key with
      | nil => exact absurd rfl different
      | cons byte key => cases shorter
  | cons first left ih =>
      cases key with
      | nil => exact ⟨ordered, Nat.succ_pos _⟩
      | cons second right =>
          rw [computePrefix] at shorter
          by_cases same : first = second
          · subst same
            rw [if_pos rfl, List.length_cons] at shorter
            rcases ordered with less | ⟨-, ordered⟩
            · exact absurd less (lt_irrefl first)
            · obtain ⟨descends, longer⟩ := ih ordered (fun equal => different (by rw [equal]))
                (by omega)
              exact ⟨descends, by rw [List.length_cons, List.length_cons]; omega⟩
          · rw [if_neg same] at shorter
            cases shorter

theorem getD_of_take_eq {left right : List UInt8} {shared place : Nat}
    (take_eq : left.take shared = right.take shared) (inside : place < shared) :
    left.getD place 0 = right.getD place 0 := by
  have there := congrArg (fun bytes => bytes.getD place 0) take_eq
  simpa only [List.getD_eq_getElem?_getD, List.getElem?_take, if_pos inside] using there

/-- Where an entry ends with what it shares, padding is found behind it. -/
theorem load_short (ordered : KeyLe descending previous key) (different : previous ≠ key)
    (previous_le : previous.length ≤ key_length) (aligned : computePrefix previous key % 5 = 0)
    (short : key.length = computePrefix previous key) :
    descending = true ∧ segmentCount descending previous (computePrefix previous key)
      (key.drop (computePrefix previous key)) (sortBehind descending key_length isr key) = 0 := by
  obtain ⟨descends, shorter⟩ := KeyLe.not_shorter ordered different short
  refine ⟨descends, ?_⟩
  rw [segmentCount_shared, if_neg different, if_pos aligned, ← short, List.drop_length, firstByte,
    sortBehind, if_pos (by omega), descends]
  rfl

/-- Inside a page the counts are the same, unless the data are missing. -/
theorem counted_inside (ordered : KeyLe descending previous key)
    (previous_le : previous.length ≤ key_length) (segments_pos : 0 < segments)
    (flags : behind.toNat ≤ 191) :
    Counted segments (Drifts previous (key, false))
      (segmentCount descending previous (computePrefix previous key)
        (key.drop (computePrefix previous key)) behind)
      (segmentCount descending previous (computePrefix previous key)
        (key.drop (computePrefix previous key)) (sortBehind descending key_length isr key)) := by
  by_cases equal : previous = key
  · constructor
    · intro _
      rw [segmentCount_shared, segmentCount_shared, if_pos equal, if_pos equal]
    · rintro ⟨different, -⟩
      exact absurd equal different
  · by_cases aligned : computePrefix previous key % 5 = 0
    · by_cases short : key.length = computePrefix previous key
      · obtain ⟨descends, load_eq⟩ := @load_short _ _ _ _ isr ordered equal previous_le aligned short
        refine ⟨fun steady => absurd ⟨equal, aligned, .inl short⟩ steady, fun _ => ?_⟩
        rw [load_eq, segmentCount_shared, if_neg equal, if_pos aligned, ← short, List.drop_length,
          shown, firstByte, if_pos descends, List.headD_nil]
        omega
      · constructor
        · intro _
          obtain ⟨byte, rest, rest_eq⟩ : ∃ byte rest, key.drop (computePrefix previous key) = byte :: rest :=
            List.exists_cons_of_ne_nil (List.drop_eq_nil_iff.not.mpr (by
              have := computePrefix_le_right previous key
              omega))
          rw [segmentCount_shared, segmentCount_shared, rest_eq]
          rfl
        · rintro ⟨-, -, ended | ⟨first, -⟩⟩
          · exact absurd ended short
          · cases first
    · constructor
      · intro _
        rw [segmentCount_shared, segmentCount_shared, if_neg aligned, if_neg aligned]
      · rintro ⟨-, shared, -⟩
        exact absurd shared aligned

/-- At the start of a page the number in front of the last shared group is counted. -/
theorem counted_first (marked : Marked descending segments key)
    (ordered : KeyLe descending previous key) (previous_le : previous.length ≤ key_length)
    (segments_pos : 0 < segments) (flags : behind.toNat ≤ 191) :
    Counted segments (Drifts previous (key, true)) (segmentCount descending previous 0 key behind)
      (segmentCount descending previous (computePrefix previous key)
        (key.drop (computePrefix previous key)) (sortBehind descending key_length isr key)) := by
  have shared_le := computePrefix_le_right previous key
  by_cases equal : previous = key
  · constructor
    · intro _
      rw [segmentCount_whole, segmentCount_shared, if_pos equal, if_pos equal]
    · rintro ⟨different, -⟩
      exact absurd equal different
  · by_cases aligned : computePrefix previous key % 5 = 0
    · by_cases short : key.length = computePrefix previous key
      · obtain ⟨descends, load_eq⟩ := @load_short _ _ _ _ isr ordered equal previous_le aligned short
        refine ⟨fun steady => absurd ⟨equal, aligned, .inl short⟩ steady, fun _ => ?_⟩
        rw [load_eq, segmentCount_whole, if_neg equal]
        refine ⟨?_, segments_pos⟩
        split_ifs with some_shared
        · exact (marked.bounded ((computePrefix previous key - 1) / 5) (by omega)).1
        · have empty : key = [] := List.eq_nil_of_length_eq_zero (by omega)
          rw [empty, firstByte, List.headD_nil, shown, if_pos descends]
          omega
      · rw [segmentCount_whole, segmentCount_shared, if_neg equal, if_neg equal, if_pos aligned]
        by_cases some_shared : 0 < computePrefix previous key
        · obtain ⟨group, shared_eq⟩ : ∃ group, computePrefix previous key = 5 * group + 5 :=
            ⟨(computePrefix previous key - 1) / 5, by omega⟩
          have first_eq : firstByte (key.drop (computePrefix previous key))
              (sortBehind descending key_length isr key) = (key.getD (5 * group + 5) 0).toNat := by
            have there : 5 * group + 5 < key.length := by omega
            rw [firstByte, shared_eq, List.drop_eq_getElem_cons there, List.headD_cons,
              List.getD_eq_getElem _ _ there]
          have place_eq : 5 * ((5 * group + 5 - 1) / 5) = 5 * group := by omega
          have drifts_iff : Drifts previous (key, true) ↔
              key.getD (5 * group + 5) 0 ≠ key.getD (5 * group) 0 := by
            have there : 5 * group + 5 < key.length := by omega
            rw [Drifts]
            dsimp only
            rw [shared_eq, Nat.add_sub_cancel, List.getElem?_eq_getElem there,
              List.getElem?_eq_getElem (by omega : 5 * group < key.length),
              List.getD_eq_getElem _ _ there, List.getD_eq_getElem _ _ (by omega)]
            constructor
            · rintro ⟨-, -, ended | ⟨-, -, apart⟩⟩
              · omega
              · exact fun same => apart (congrArg some same)
            · exact fun apart => ⟨equal, by omega, .inr ⟨rfl, by omega, fun same =>
                apart (Option.some.inj same)⟩⟩
          have descends := marked.descends group (by omega)
          have bounded := (marked.bounded group (by omega)).2
          rw [if_pos some_shared, first_eq, shared_eq, place_eq, drifts_iff]
          refine ⟨fun same => by rw [not_not.mp same], fun apart => ?_⟩
          have shown_ne : shown descending (key.getD (5 * group + 5) 0).toNat ≠
              shown descending (key.getD (5 * group) 0).toNat := by
            intro same
            have first_lt := (key.getD (5 * group + 5) 0).toNat_lt
            have second_lt := (key.getD (5 * group) 0).toNat_lt
            refine apart (UInt8.toNat_inj.mp ?_)
            rw [shown, shown] at same
            split_ifs at same <;> omega
          omega
        · have none_shared : computePrefix previous key = 0 := by omega
          obtain ⟨byte, rest, rfl⟩ := List.exists_cons_of_length_pos (by omega : 0 < key.length)
          rw [if_neg some_shared, none_shared, List.drop_zero]
          refine ⟨fun _ => rfl, ?_⟩
          rintro ⟨-, -, ended | ⟨-, shared_pos, -⟩⟩
          · exact absurd ended short
          · exact absurd shared_pos some_shared
    · constructor
      · intro _
        have place_eq : 5 * ((computePrefix previous key - 1) / 5) =
            computePrefix previous key / 5 * 5 := by omega
        rw [segmentCount_whole, segmentCount_shared, if_neg equal, if_neg equal, if_neg aligned,
          if_pos (by omega), place_eq, getD_of_take_eq (take_computePrefix previous key) (by omega)]
      · rintro ⟨-, shared, -⟩
        exact absurd shared aligned

/-! ## One entry in both counts -/

/-- What the counters of the walk and of the load have to do with each other. -/
structure Tracks (segments : Nat) (walked loaded : Tally) (steady : Prop) : Prop where
  nodes_eq : walked.nodes = loaded.nodes
  duplicates_eq : walked.duplicates = loaded.duplicates
  key_eq : walked.key = loaded.key
  lists : (∀ index < segments, walked.duplicatesList index ≤ loaded.duplicatesList index) ∧
    ((∀ index < segments, walked.duplicatesList index = loaded.duplicatesList index) ↔ steady)

theorem tracks_start (segments : Nat) : Tracks segments .start .start True :=
  ⟨rfl, rfl, rfl, fun _ _ => Nat.le_refl 0, iff_of_true (fun _ _ => rfl) trivial⟩

/-- The counters of the segments at one entry. -/
theorem addDuplicates_tracks {walked loaded : Nat → Nat} {counted loaded_count : Nat}
    {steady drifts : Prop} (le : ∀ index < segments, walked index ≤ loaded index)
    (eq_iff : (∀ index < segments, walked index = loaded index) ↔ steady)
    (counts : Counted segments drifts counted loaded_count) :
    (∀ index < segments, addDuplicates segments counted walked index ≤
        addDuplicates segments loaded_count loaded index) ∧
      ((∀ index < segments, addDuplicates segments counted walked index =
        addDuplicates segments loaded_count loaded index) ↔ steady ∧ ¬ drifts) := by
  by_cases drift : drifts
  · obtain ⟨less, small⟩ := counts.less drift
    refine ⟨fun index index_lt => ?_, iff_of_false (fun same => ?_) fun both => both.2 drift⟩
    · have := le index index_lt
      rw [addDuplicates, addDuplicates]
      split_ifs <;> omega
    · -- The smaller count adds one more to the counter of the next segment.
      have index_lt : segments - (loaded_count + 1) < segments := by omega
      have counted_eq := same _ index_lt
      have walked_le := le _ index_lt
      rw [addDuplicates, addDuplicates, if_neg (by omega), if_pos (by omega)] at counted_eq
      omega
  · rw [counts.same drift, and_iff_left drift, ← eq_iff]
    refine ⟨fun index index_lt => ?_, forall₂_congr fun index index_lt => ?_⟩
    · have := le index index_lt
      rw [addDuplicates, addDuplicates]
      split_ifs <;> omega
    · rw [addDuplicates, addDuplicates]
      split_ifs <;> omega

/-- How the node stands on its page: at the start, or compressed against the key before. -/
def Stored (first : Bool) (previous : List UInt8) (node : IndexNode) : Prop :=
  if first then node.prefixLength = 0
  else node.prefixLength = computePrefix previous (node.key previous)

variable {walked loaded : Tally} {node : IndexNode} {first : Bool} {steady : Prop}

theorem key_of_first (stored : node.prefixLength = 0) (previous : List UInt8) :
    node.key previous = node.data := by
  rw [IndexNode.key, stored, List.take_zero, List.nil_append]

theorem data_of_compressed (stored : node.prefixLength = computePrefix previous (node.key previous)) :
    node.data = (node.key previous).drop (computePrefix previous (node.key previous)) := by
  have taken_length : (previous.take node.prefixLength).length = node.prefixLength :=
    List.length_take_of_le (stored ▸ computePrefix_le_left _ _)
  have dropped : (previous.take node.prefixLength ++ node.data).drop node.prefixLength = node.data := by
    calc (previous.take node.prefixLength ++ node.data).drop node.prefixLength
        = (previous.take node.prefixLength ++ node.data).drop
            (previous.take node.prefixLength).length := by rw [taken_length]
      _ = node.data := List.drop_left
  rw [← stored, IndexNode.key, dropped]

/-- Both counts of whole duplicates look for the same key. -/
theorem duplicate_iff (stored : Stored first previous node) :
    (if first then keyEqual node previous
      else node.length = 0 && node.length + node.prefixLength = previous.length) = true ↔
      previous = node.key previous := by
  cases first with
  | true =>
      have stored : node.prefixLength = 0 := stored
      rw [if_pos rfl, key_of_first stored, keyEqual, stored, Nat.add_zero, List.drop_zero,
        IndexNode.length, Bool.and_eq_true, Bool.or_eq_true, decide_eq_true_iff, decide_eq_true_iff,
        decide_eq_true_iff]
      constructor
      · rintro ⟨length_eq, empty | data_eq⟩
        · rw [List.eq_nil_of_length_eq_zero empty, List.eq_nil_of_length_eq_zero (length_eq.trans empty)]
        · rw [data_eq, ← length_eq, List.take_length]
      · intro equal
        rw [← equal]
        exact ⟨rfl, .inr (List.take_length).symm⟩
  | false =>
      have stored : node.prefixLength = computePrefix previous (node.key previous) := stored
      have data_eq := data_of_compressed stored
      have drops := eq_iff_drop previous (node.key previous)
      rw [if_neg Bool.false_ne_true, Bool.and_eq_true, decide_eq_true_iff, decide_eq_true_iff, ← drops,
        IndexNode.length, ← data_eq, List.drop_eq_nil_iff, ← stored, List.length_eq_zero_iff]
      have prefix_le : node.prefixLength ≤ previous.length := stored ▸ computePrefix_le_left _ _
      constructor
      · rintro ⟨empty, length_eq⟩
        rw [empty, List.length_nil] at length_eq
        exact ⟨by omega, empty⟩
      · rintro ⟨ended, empty⟩
        rw [empty]
        exact ⟨rfl, by rw [List.length_nil]; omega⟩

/-- The loaded entry is a whole duplicate. -/
theorem loaded_duplicate_iff (previous key : List UInt8) :
    ((key.drop (computePrefix previous key)).length = 0 ∧
      computePrefix previous key = previous.length) ↔ previous = key := by
  have prefix_le := computePrefix_le_left previous key
  rw [← eq_iff_drop, List.drop_eq_nil_iff, List.length_eq_zero_iff]
  constructor
  · rintro ⟨empty, whole⟩
    exact ⟨by omega, empty⟩
  · rintro ⟨ended, empty⟩
    exact ⟨empty, by omega⟩

/-- One node on a page and one record of the load, when there is an entry before. -/
theorem visit_tracks (tracks : Tracks segments walked loaded steady) (later : walked.nodes ≠ 0)
    (stored : Stored first walked.key node)
    (marked : 1 < segments → Marked descending segments (node.key walked.key))
    (ordered : KeyLe descending walked.key (node.key walked.key))
    (previous_le : walked.key.length ≤ key_length) (flags : behind.toNat ≤ 191) :
    Tracks segments (walked.visit descending segments first node behind)
      (loaded.load descending segments key_length isr (node.key walked.key))
      (steady ∧ (1 < segments → ¬ Drifts walked.key (node.key walked.key, first))) := by
  obtain ⟨nodes_eq, duplicates_eq, key_eq, le, eq_iff⟩ := tracks
  have loaded_later : 1 < loaded.nodes + 1 := by omega
  rw [Tally.visit, Tally.load, ← key_eq]
  refine ⟨by dsimp only; rw [nodes_eq], ?_, rfl, ?_⟩
  · dsimp only
    rw [duplicates_eq, if_congr (and_iff_left later) rfl rfl, if_congr (and_iff_left loaded_later) rfl rfl,
      if_congr (duplicate_iff stored) rfl rfl, if_congr (loaded_duplicate_iff _ _) rfl rfl]
  · dsimp only
    by_cases compound : 1 < segments
    · rw [if_pos ⟨compound, later⟩, if_pos ⟨compound, loaded_later⟩, imp_iff_right compound]
      refine addDuplicates_tracks le eq_iff ?_
      cases first with
      | true =>
          have stored : node.prefixLength = 0 := stored
          rw [stored, ← key_of_first stored walked.key]
          exact counted_first (marked compound) ordered previous_le (by omega) flags
      | false =>
          have stored : node.prefixLength = computePrefix walked.key (node.key walked.key) := stored
          rw [stored]
          have data_eq := data_of_compressed stored
          rw [data_eq]
          exact counted_inside ordered previous_le (by omega) flags
    · rw [if_neg fun both => compound both.1, if_neg fun both => compound both.1,
        and_iff_left fun more => absurd more compound]
      exact ⟨le, eq_iff⟩

/-! ## All entries -/

/-- The key before the next entry. -/
def Tally.before (tally : Tally) : Option (List UInt8) :=
  if tally.nodes = 0 then none else some tally.key

/-- Each entry is in a relation to the key before. -/
def ChainFrom (relation : List UInt8 → List UInt8 × Bool → Prop) :
    Option (List UInt8) → List (List UInt8 × Bool) → Prop
  | _, [] => True
  | previous, entry :: rest =>
      (∀ key ∈ previous, relation key entry) ∧ ChainFrom relation (some entry.1) rest

/-- The key behind which the next entry comes. -/
def lastOf : Option (List UInt8) → List (List UInt8 × Bool) → Option (List UInt8)
  | previous, [] => previous
  | _, entry :: rest => lastOf (some entry.1) rest

theorem chainFrom_append {relation : List UInt8 → List UInt8 × Bool → Prop}
    (previous : Option (List UInt8)) (front back : List (List UInt8 × Bool)) :
    ChainFrom relation previous (front ++ back) ↔
      ChainFrom relation previous front ∧ ChainFrom relation (lastOf previous front) back := by
  induction front generalizing previous with
  | nil => exact (iff_of_eq (true_and _)).symm
  | cons entry front ih =>
      rw [List.cons_append, ChainFrom, ChainFrom, ih, and_assoc]
      rfl

theorem chainFrom_iff_isChain {relation : List UInt8 → List UInt8 × Bool → Prop}
    (entries : List (List UInt8 × Bool)) :
    ChainFrom relation none entries ↔
      entries.IsChain fun previous entry => relation previous.1 entry := by
  induction entries with
  | nil => exact iff_of_true trivial List.IsChain.nil
  | cons entry rest ih =>
      cases rest with
      | nil => exact iff_of_true ⟨nofun, trivial⟩ (List.IsChain.singleton _)
      | cons next rest =>
          rw [List.isChain_cons_cons, ← ih, ChainFrom, ChainFrom, ChainFrom]
          exact ⟨fun ⟨_, related, chained⟩ => ⟨related _ rfl, nofun, chained⟩,
            fun ⟨related, _, chained⟩ => ⟨nofun, fun _ same => Option.some.inj same ▸ related, chained⟩⟩

/-- Counted the same, and nothing else. -/
def SteadyFrom (segments : Nat) (previous : Option (List UInt8))
    (entries : List (List UInt8 × Bool)) : Prop :=
  1 < segments → ChainFrom (fun key entry => ¬ Drifts key entry) previous entries

/-- Entries of an index whose sort records have room for their keys. -/
structure Admissible (descending : Bool) (segments key_length : Nat) (previous : Option (List UInt8))
    (entries : List (List UInt8 × Bool)) : Prop where
  ordered : ChainFrom (fun key entry => KeyLe descending key entry.1) previous entries
  marked : ∀ entry ∈ entries, 1 < segments → Marked descending segments entry.1
  length_le : ∀ entry ∈ entries, entry.1.length ≤ key_length
  previous_le : ∀ key ∈ previous, key.length ≤ key_length

theorem Admissible.cons {previous : Option (List UInt8)} {entry : List UInt8 × Bool}
    {rest : List (List UInt8 × Bool)}
    (admissible : Admissible descending segments key_length previous (entry :: rest)) :
    Admissible descending segments key_length (some entry.1) rest where
  ordered := admissible.ordered.2
  marked other member := admissible.marked other (List.mem_cons_of_mem _ member)
  length_le other member := admissible.length_le other (List.mem_cons_of_mem _ member)
  previous_le _ same := Option.some.inj same ▸ admissible.length_le entry List.mem_cons_self

theorem Admissible.append {previous : Option (List UInt8)} {front back : List (List UInt8 × Bool)}
    (admissible : Admissible descending segments key_length previous (front ++ back)) :
    Admissible descending segments key_length previous front ∧
      Admissible descending segments key_length (lastOf previous front) back := by
  induction front generalizing previous with
  | nil => exact ⟨⟨trivial, nofun, nofun, admissible.previous_le⟩, admissible⟩
  | cons entry front ih =>
      obtain ⟨first, second⟩ := ih admissible.cons
      refine ⟨⟨⟨admissible.ordered.1, first.ordered⟩,
        fun other member => admissible.marked other (List.mem_append_left _ member),
        fun other member => admissible.length_le other (List.mem_append_left _ member),
        admissible.previous_le⟩, second⟩

theorem before_visit (tally : Tally) (first : Bool) (node : IndexNode) (behind : UInt8) :
    (tally.visit descending segments first node behind).before = some (node.key tally.key) := rfl

/-- One node on a page and one record of the load. -/
theorem enter_tracks {rest : List (List UInt8 × Bool)} (tracks : Tracks segments walked loaded steady)
    (stored : Stored first walked.key node)
    (admissible : Admissible descending segments key_length walked.before
      ((node.key walked.key, first) :: rest)) (flags : behind.toNat ≤ 191) :
    Tracks segments (walked.visit descending segments first node behind)
      (loaded.load descending segments key_length isr (node.key walked.key))
      (steady ∧ (1 < segments → ∀ key ∈ walked.before,
        ¬ Drifts key (node.key walked.key, first))) := by
  by_cases none_before : walked.nodes = 0
  · obtain ⟨nodes_eq, duplicates_eq, key_eq, lists⟩ := tracks
    have previous_eq : walked.before = none := if_pos none_before
    have loaded_none : ¬ 1 < loaded.nodes + 1 := by omega
    have nothing : 1 < segments → ∀ key ∈ (none : Option (List UInt8)),
        ¬ Drifts key (node.key walked.key, first) := fun _ => nofun
    rw [previous_eq, and_iff_left nothing, Tally.visit, Tally.load]
    refine ⟨by dsimp only; rw [nodes_eq], ?_, rfl, ?_⟩
    · dsimp only
      rw [if_neg fun both => both.2 none_before, if_neg fun both => loaded_none both.2, duplicates_eq]
    · dsimp only
      rw [if_neg fun both => both.2 none_before, if_neg fun both => loaded_none both.2]
      exact lists
  · have previous_eq : walked.before = some walked.key := if_neg none_before
    have visited := @visit_tracks descending segments key_length isr behind walked loaded node
      first steady tracks none_before stored (admissible.marked _ List.mem_cons_self)
      (admissible.ordered.1 _ previous_eq) (admissible.previous_le _ previous_eq) flags
    rw [previous_eq]
    simp only [Option.mem_def, Option.some.injEq, forall_eq']
    exact visited

theorem flags_of_head (rest : List IndexNode) : ((rest.head?.map flagsByte).getD 0).toNat ≤ 191 := by
  cases rest with
  | nil => exact Nat.zero_le _
  | cons node rest => exact flagsByte_le node

theorem steadyFrom_nil {previous : Option (List UInt8)} : SteadyFrom segments previous [] :=
  fun _ => trivial

theorem steadyFrom_cons (previous : Option (List UInt8)) (entry : List UInt8 × Bool)
    (rest : List (List UInt8 × Bool)) :
    SteadyFrom segments previous (entry :: rest) ↔
      (1 < segments → ∀ key ∈ previous, ¬ Drifts key entry) ∧
        SteadyFrom segments (some entry.1) rest :=
  imp_and

theorem steadyFrom_append (previous : Option (List UInt8)) (front back : List (List UInt8 × Bool)) :
    SteadyFrom segments previous (front ++ back) ↔
      SteadyFrom segments previous front ∧ SteadyFrom segments (lastOf previous front) back := by
  rw [SteadyFrom, chainFrom_append]
  exact imp_and

theorem fast_load_append (front back : List (List UInt8)) (tally : Tally) :
    fast_load descending segments key_length isr (front ++ back) tally =
      fast_load descending segments key_length isr back
        (fast_load descending segments key_length isr front tally) := by
  induction front generalizing tally with
  | nil => rfl
  | cons record front ih => exact ih _

/-- The nodes of a page behind the first one. -/
theorem visitRest_tracks (nodes : List IndexNode) {walked loaded : Tally} {steady : Prop}
    (tracks : Tracks segments walked loaded steady)
    (chained : Chained descending (some walked.key) nodes) (later : walked.nodes ≠ 0)
    (admissible : Admissible descending segments key_length walked.before
      ((pageKeys walked.key nodes).map fun key => (key, false))) :
    Tracks segments (visitPage descending segments false nodes walked)
        (fast_load descending segments key_length isr (pageKeys walked.key nodes) loaded)
        (steady ∧ SteadyFrom segments walked.before
          ((pageKeys walked.key nodes).map fun key => (key, false))) ∧
      (visitPage descending segments false nodes walked).before =
        lastOf walked.before ((pageKeys walked.key nodes).map fun key => (key, false)) := by
  induction nodes generalizing walked loaded steady with
  | nil => exact chained.elim
  | cons node rest ih =>
      rw [pageKeys] at admissible ⊢
      rw [visitPage]
      by_cases marker : (node.isEndBucket || node.isEndLevel) = true
      · rw [if_pos marker, if_pos marker]
        exact ⟨by rw [List.map_nil, and_iff_left steadyFrom_nil]; exact tracks, rfl⟩
      · rw [if_neg marker] at admissible
        rw [if_neg marker, if_neg marker]
        obtain ⟨open_bucket, open_level⟩ :=
          Bool.or_eq_false_iff.mp (Bool.eq_false_iff.mpr marker)
        obtain ⟨follows, chained⟩ : Follows descending (some walked.key) node ∧
            Chained descending (some (node.key walked.key)) rest := by
          rw [Chained, open_level, open_bucket] at chained
          exact chained
        have entered := @enter_tracks descending segments key_length isr
          ((rest.head?.map flagsByte).getD 0) walked loaded node false steady _ tracks follows.1
          admissible (flags_of_head rest)
        obtain ⟨run, last_eq⟩ := ih entered chained (Nat.succ_ne_zero _) admissible.cons
        refine ⟨?_, last_eq⟩
        rw [List.map_cons, steadyFrom_cons, ← and_assoc]
        exact run

theorem page_of_marker {node : IndexNode} (marker : (node.isEndBucket || node.isEndLevel) = true)
    (rest : List IndexNode) :
    pageKeys [] (node :: rest) = [] ∧ pageEntries (node :: rest) = [] := by
  have keys_eq : pageKeys [] (node :: rest) = [] := if_pos marker
  rw [pageEntries, keys_eq]
  exact ⟨rfl, rfl⟩

theorem page_of_entry {node : IndexNode} (marker : ¬ (node.isEndBucket || node.isEndLevel) = true)
    (rest : List IndexNode) :
    pageKeys [] (node :: rest) = node.key [] :: pageKeys (node.key []) rest ∧
      pageEntries (node :: rest) =
        (node.key [], true) :: (pageKeys (node.key []) rest).map fun key => (key, false) := by
  have keys_eq : pageKeys [] (node :: rest) = node.key [] :: pageKeys (node.key []) rest :=
    if_neg marker
  rw [pageEntries, keys_eq]
  exact ⟨rfl, rfl⟩

/-- A whole page. -/
theorem visitPage_tracks (page : List IndexNode) {walked loaded : Tally} {steady : Prop}
    (tracks : Tracks segments walked loaded steady) (chained : Chained descending none page)
    (admissible : Admissible descending segments key_length walked.before (pageEntries page)) :
    Tracks segments (visitPage descending segments true page walked)
        (fast_load descending segments key_length isr (pageKeys [] page) loaded)
        (steady ∧ SteadyFrom segments walked.before (pageEntries page)) ∧
      (visitPage descending segments true page walked).before =
        lastOf walked.before (pageEntries page) := by
  cases page with
  | nil => exact chained.elim
  | cons node rest =>
      rw [visitPage]
      by_cases marker : (node.isEndBucket || node.isEndLevel) = true
      · obtain ⟨keys_eq, entries_eq⟩ := page_of_marker marker rest
        rw [if_pos marker, keys_eq, entries_eq, and_iff_left steadyFrom_nil]
        exact ⟨tracks, rfl⟩
      · obtain ⟨keys_eq, entries_eq⟩ := page_of_entry marker rest
        rw [entries_eq] at admissible
        rw [if_neg marker, keys_eq, entries_eq]
        obtain ⟨open_bucket, open_level⟩ :=
          Bool.or_eq_false_iff.mp (Bool.eq_false_iff.mpr marker)
        obtain ⟨follows, chained⟩ : Follows descending none node ∧
            Chained descending (some (node.key [])) rest := by
          rw [Chained, open_level, open_bucket] at chained
          exact chained
        have stored : node.prefixLength = 0 := follows
        have key_eq : node.key [] = node.key walked.key := by
          rw [key_of_first stored, key_of_first stored]
        rw [key_eq] at admissible chained ⊢
        have entered := @enter_tracks descending segments key_length isr
          ((rest.head?.map flagsByte).getD 0) walked loaded node true steady _ tracks stored
          admissible (flags_of_head rest)
        obtain ⟨run, last_eq⟩ := @visitRest_tracks descending segments key_length isr rest _ _ _
          entered chained (Nat.succ_ne_zero _) admissible.cons
        refine ⟨?_, last_eq⟩
        rw [steadyFrom_cons, ← and_assoc]
        exact run

/-- All pages of a level. -/
theorem BTR_selectivity_tracks (front : List (List IndexNode)) (last : List IndexNode)
    {walked loaded : Tally} {steady : Prop} (tracks : Tracks segments walked loaded steady)
    (chained : ∀ page ∈ front ++ [last], Chained descending none page)
    (continued : ∀ page ∈ front, page.any IndexNode.isEndLevel = false)
    (admissible : Admissible descending segments key_length walked.before
      ((front ++ [last]).flatMap pageEntries)) :
    Tracks segments (BTR_selectivity descending segments (front ++ [last]) walked)
      (fast_load descending segments key_length isr (keysOf (front ++ [last])) loaded)
      (steady ∧ SteadyFrom segments walked.before ((front ++ [last]).flatMap pageEntries)) := by
  induction front generalizing walked loaded steady with
  | nil =>
      obtain ⟨run, -⟩ := @visitPage_tracks descending segments key_length isr last walked loaded steady
        tracks (chained last List.mem_cons_self) (by simpa using admissible)
      have walk_eq : BTR_selectivity descending segments ([] ++ [last]) walked =
          visitPage descending segments true last walked := by
        rw [List.nil_append, BTR_selectivity]
        exact ite_self _
      rw [walk_eq, keysOf, List.nil_append, List.flatMap_singleton, List.flatMap_singleton]
      exact run
  | cons page front ih =>
      rw [List.cons_append, List.flatMap_cons] at admissible
      obtain ⟨first, others⟩ := admissible.append
      obtain ⟨run, last_eq⟩ := @visitPage_tracks descending segments key_length isr page walked loaded
        steady tracks (chained page List.mem_cons_self) first
      rw [← last_eq] at others
      have rest := ih run (fun other member => chained other (List.mem_cons_of_mem _ member))
        (fun other member => continued other (List.mem_cons_of_mem _ member)) others
      have walk_eq : BTR_selectivity descending segments (page :: front ++ [last]) walked =
          BTR_selectivity descending segments (front ++ [last])
            (visitPage descending segments true page walked) := by
        rw [List.cons_append, BTR_selectivity, continued page List.mem_cons_self]
        rfl
      rw [walk_eq, keysOf, List.cons_append, List.flatMap_cons, List.flatMap_cons, fast_load_append,
        steadyFrom_append, ← last_eq, ← and_assoc]
      exact rest

/-! ## The whole index -/

theorem pageEntries_keys (page : List IndexNode) :
    (pageEntries page).map Prod.fst = pageKeys [] page := by
  rw [pageEntries]
  cases pageKeys [] page with
  | nil => rfl
  | cons key keys =>
      rw [List.map_cons, List.map_map]
      exact congrArg (key :: ·) (List.map_id' keys)

theorem entries_keys (pages : List (List IndexNode)) :
    (pages.flatMap pageEntries).map Prod.fst = keysOf pages := by
  rw [List.map_flatMap, keysOf]
  exact List.flatMap_congr fun page _ => pageEntries_keys page

theorem LeafPages.admissible (tree : LeafPages descending)
    (marked : 1 < segments → ∀ key ∈ keysOf tree.pages, Marked descending segments key)
    (length_le : ∀ key ∈ keysOf tree.pages, key.length ≤ key_length) :
    Admissible descending segments key_length none (tree.pages.flatMap pageEntries) := by
  have keys_eq := entries_keys tree.pages
  have is_key : ∀ entry ∈ tree.pages.flatMap pageEntries, entry.1 ∈ keysOf tree.pages :=
    fun entry member => keys_eq ▸ List.mem_map_of_mem member
  refine ⟨?_, fun entry member compound => marked compound _ (is_key entry member),
    fun entry member => length_le _ (is_key entry member), nofun⟩
  rw [chainFrom_iff_isChain, ← List.isChain_map Prod.fst, keys_eq]
  exact tree.ordered

/-- The counts are equal exactly when the index has one segment, or no entry lets them drift apart. -/
theorem counts_equal_iff (tree : LeafPages descending) (segments key_length : Nat) (isr : UInt8)
    (marked : 1 < segments → ∀ key ∈ keysOf tree.pages, Marked descending segments key)
    (length_le : ∀ key ∈ keysOf tree.pages, key.length ≤ key_length) :
    let walked := BTR_selectivity descending segments tree.pages .start
    let loaded := fast_load descending segments key_length isr (keysOf tree.pages) .start
    (walked.nodes = loaded.nodes ∧ walked.duplicates = loaded.duplicates ∧
      ∀ index < segments, walked.duplicatesList index = loaded.duplicatesList index) ↔
    (1 < segments → Steady tree.pages) := by
  intro walked loaded
  obtain ⟨front, last, pages_eq, continued, -⟩ := tree.ends
  have admissible := tree.admissible marked length_le
  have chained := tree.chained
  rw [pages_eq] at admissible chained
  have tracks := @BTR_selectivity_tracks descending segments key_length isr front last _ _ _
    (tracks_start segments) chained continued admissible
  rw [← pages_eq] at tracks
  have steady_iff : (True ∧ SteadyFrom segments Tally.start.before (tree.pages.flatMap pageEntries)) ↔
      (1 < segments → Steady tree.pages) := by
    rw [true_and]
    exact imp_congr_right fun _ => chainFrom_iff_isChain _
  rw [steady_iff] at tracks
  rw [← tracks.lists.2]
  exact ⟨fun ⟨_, _, lists⟩ => lists, fun lists => ⟨tracks.nodes_eq, tracks.duplicates_eq, lists⟩⟩

/-- Keys of `("A", "X")`, twice, and of `("B", "X")`, on three leaf pages. -/
def together : LeafPages false where
  pages :=
    [[⟨0, [2, 65, 0, 0, 0, 1, 88], 1, 0, false, false⟩, ⟨7, [], 2, 0, true, false⟩],
      [⟨0, [2, 65, 0, 0, 0, 1, 88], 2, 0, false, false⟩, ⟨1, [66, 0, 0, 0, 1, 88], 3, 0, true, false⟩],
      [⟨0, [2, 66, 0, 0, 0, 1, 88], 3, 0, false, false⟩, ⟨0, [], 0, 0, false, true⟩]]
  chained := by decide
  ends := ⟨[_, _], _, rfl, by decide, by decide⟩
  ordered := by decide

theorem counts_equal_together :
    let walked := BTR_selectivity false 2 together.pages .start
    let loaded := fast_load false 2 8 0 (keysOf together.pages) .start
    (walked.nodes = loaded.nodes ∧ walked.duplicates = loaded.duplicates ∧
      ∀ index < 2, walked.duplicatesList index = loaded.duplicatesList index) ↔
    (1 < 2 → Steady together.pages) :=
  counts_equal_iff together 2 8 0 (fun _ => by decide) (by decide)

/-- Keys of `("A", NULL)` and `("A", "X")` on two leaf pages. -/
def apart : LeafPages false where
  pages :=
    [[⟨0, [2, 65, 0, 0, 0], 1, 0, false, false⟩, ⟨5, [1, 88], 2, 0, true, false⟩],
      [⟨0, [2, 65, 0, 0, 0, 1, 88], 2, 0, false, false⟩, ⟨0, [], 0, 0, false, true⟩]]
  chained := by decide
  ends := ⟨[_], _, rfl, by decide, by decide⟩
  ordered := by decide

/-- The walk over the pages does not count the duplicate in the first segment. -/
theorem counts_apart :
    (∀ key ∈ keysOf apart.pages, Marked false 2 key) ∧
      (BTR_selectivity false 2 apart.pages .start).duplicatesList 0 = 0 ∧
      (fast_load false 2 8 0 (keysOf apart.pages) .start).duplicatesList 0 = 1 := by
  refine ⟨?_, ?_, ?_⟩
  · decide
  · decide
  · decide

end Selectivity
end Firebird
