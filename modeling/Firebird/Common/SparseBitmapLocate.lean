import Mathlib
import Firebird.Common.SparseBitmap

/-!
# What a sparse bitmap locates

The scans of a bucket find its nearest value, and the tree finds the nearest bucket; only the scan of
a bucket before that of the key counts from the wrong value.
-/

namespace Firebird

open BePlusTree (LocType Accessor)

variable {types : BitmapTypes}

namespace BitmapTypes

theorem two_le_BUNCH_BITS : 2 ≤ types.BUNCH_BITS :=
  Nat.pow_le_pow_right Nat.two_pos types.bunchLog_pos

theorem BUNCH_BITS_dvd : types.BUNCH_BITS ∣ 2 ^ types.valueBits :=
  Nat.pow_dvd_pow 2 types.bunchLog_le

/-- The aligned key is a multiple of the bits of a bucket, and the key lies in that bucket. -/
theorem aligned_spec {key : Nat} (key_lt : key < 2 ^ types.valueBits) :
    types.BUNCH_BITS ∣ types.aligned key ∧ types.aligned key ≤ key ∧
      key < types.aligned key + types.BUNCH_BITS := by
  have bunch_pos : 0 < types.BUNCH_BITS := Nat.two_pow_pos _
  have aligned_eq : types.aligned key = key / types.BUNCH_BITS * types.BUNCH_BITS :=
    BitMask.and_high key_lt types.bunchLog_le
  rw [aligned_eq]
  refine ⟨Nat.dvd_mul_left _ _, Nat.div_mul_le_self _ _, ?_⟩
  have split := Nat.div_add_mod' key types.BUNCH_BITS
  have := Nat.mod_lt key bunch_pos
  omega

end BitmapTypes

/-- Between two multiples lies a whole bucket. -/
theorem add_le_of_dvd {size first second : Nat} (first_dvd : size ∣ first) (second_dvd : size ∣ second)
    (less : first < second) : first + size ≤ second := by
  have apart : size ∣ second - first := Nat.dvd_sub second_dvd first_dvd
  have := Nat.le_of_dvd (by omega) apart
  omega

namespace SparseBitmap
namespace Bucket

variable {bucket : Bucket types} {value : Nat}

theorem start_add_le (bucket : Bucket types) :
    bucket.start_value + types.BUNCH_BITS ≤ 2 ^ types.valueBits :=
  add_le_of_dvd bucket.start_aligned types.BUNCH_BITS_dvd bucket.start_lt

/-- The values of a bucket are the places of its bits. -/
theorem Has.exists_bit (has : bucket.Has value) :
    ∃ bit < types.BUNCH_BITS, bucket.bits.testBit bit = true ∧ value = bucket.start_value + bit := by
  obtain ⟨start_le, set⟩ := has
  refine ⟨value - bucket.start_value, ?_, set, by omega⟩
  by_contra beyond
  have small := bucket.bits_lt.trans_le (Nat.pow_le_pow_right (by decide) (not_lt.mp beyond))
  rw [Nat.testBit_lt_two_pow small] at set
  cases set

theorem has_of_bit {bit : Nat} (set : bucket.bits.testBit bit = true) :
    bucket.Has (bucket.start_value + bit) :=
  ⟨Nat.le_add_right _ _, by rw [Nat.add_sub_cancel_left]; exact set⟩

/-- A bucket is never empty. -/
theorem exists_has (bucket : Bucket types) : ∃ value, bucket.Has value := by
  obtain ⟨bit, set⟩ := Nat.exists_testBit_of_ne_zero bucket.bits_pos.ne'
  exact ⟨_, has_of_bit set⟩

theorem Has.lt_add (has : bucket.Has value) : value < bucket.start_value + types.BUNCH_BITS := by
  obtain ⟨bit, bit_lt, -, rfl⟩ := has.exists_bit
  omega

/-- The values of a bucket are smaller than those of a bucket behind it. -/
theorem Has.lt_start {other : Bucket types} (has : bucket.Has value)
    (less : bucket.start_value < other.start_value) : value < other.start_value :=
  has.lt_add.trans_le (add_le_of_dvd bucket.start_aligned other.start_aligned less)

end Bucket

section Scan

variable {tree_bits : Nat}

/-- The scan forwards finds the lowest bit from the place on. -/
theorem scanForwards_spec {left bit current_value : Nat}
    (current_lt : current_value < 2 ^ types.valueBits) :
    scanForwards types tree_bits left bit current_value = none ∧
        (∀ place, bit ≤ place → place < bit + left → tree_bits.testBit place = false) ∨
      ∃ place, bit ≤ place ∧ tree_bits.testBit place = true ∧
        (∀ lower, bit ≤ lower → lower < place → tree_bits.testBit lower = false) ∧
        scanForwards types tree_bits left bit current_value =
          some ((current_value + (place - bit)) % 2 ^ types.valueBits) := by
  induction left generalizing bit current_value with
  | zero => exact .inl ⟨rfl, fun place _ _ => by omega⟩
  | succ left ih =>
      by_cases set : tree_bits.testBit bit = true
      · refine .inr ⟨bit, Nat.le_refl _, set, fun lower _ _ => by omega, ?_⟩
        rw [scanForwards, if_pos set, Nat.sub_self, Nat.add_zero, Nat.mod_eq_of_lt current_lt]
      · have clear := Bool.eq_false_iff.mpr set
        have bits_below : ∀ place, bit ≤ place → ¬ bit + 1 ≤ place →
            tree_bits.testBit place = false := by
          intro place from_bit not_behind
          rw [show place = bit by omega]
          exact clear
        rw [scanForwards, if_neg set]
        rcases @ih (bit + 1) _ (Nat.mod_lt (current_value + 1) (Nat.two_pow_pos types.valueBits)) with
          ⟨missed, all_clear⟩ | ⟨place, bit_le, place_set, lower_clear, found⟩
        · refine .inl ⟨missed, fun place from_bit place_lt => ?_⟩
          by_cases behind : bit + 1 ≤ place
          · exact all_clear place behind (by omega)
          · exact bits_below place from_bit behind
        · refine .inr ⟨place, by omega, place_set, fun lower from_bit lower_lt => ?_, ?_⟩
          · by_cases behind : bit + 1 ≤ lower
            · exact lower_clear lower behind lower_lt
            · exact bits_below lower from_bit behind
          · rw [found, Nat.mod_add_mod]
            congr 2
            omega

/-- The scan backwards finds the highest bit up to the place, and counts down to it. -/
theorem scanBackwards_spec {bit current_value : Nat}
    (current_lt : current_value < 2 ^ types.valueBits) :
    scanBackwards types tree_bits bit current_value = none ∧
        (∀ place ≤ bit, tree_bits.testBit place = false) ∨
      ∃ place ≤ bit, tree_bits.testBit place = true ∧
        (∀ higher, place < higher → higher ≤ bit → tree_bits.testBit higher = false) ∧
        ∃ found < 2 ^ types.valueBits,
          scanBackwards types tree_bits bit current_value = some found ∧
          (found + (bit - place)) % 2 ^ types.valueBits = current_value := by
  induction bit generalizing current_value with
  | zero =>
      rw [scanBackwards]
      by_cases set : tree_bits.testBit 0 = true
      · rw [if_pos set]
        exact .inr ⟨0, Nat.le_refl _, set, fun higher _ _ => by omega, current_value, current_lt, rfl,
          Nat.mod_eq_of_lt current_lt⟩
      · rw [if_neg set]
        refine .inl ⟨rfl, fun place place_le => ?_⟩
        rw [Nat.le_zero.mp place_le]
        exact Bool.eq_false_iff.mpr set
  | succ bit ih =>
      rw [scanBackwards]
      by_cases set : tree_bits.testBit (bit + 1) = true
      · rw [if_pos set]
        refine .inr ⟨bit + 1, Nat.le_refl _, set, fun higher _ _ => by omega, current_value, current_lt,
          rfl, ?_⟩
        rw [Nat.sub_self, Nat.add_zero, Nat.mod_eq_of_lt current_lt]
      · have clear := Bool.eq_false_iff.mpr set
        rw [if_neg set]
        rcases @ih _ (Nat.mod_lt (current_value + 2 ^ types.valueBits - 1)
          (Nat.two_pow_pos types.valueBits)) with
          ⟨missed, all_clear⟩ | ⟨place, place_le, place_set, higher_clear, found, found_lt, found_eq, count_eq⟩
        · refine .inl ⟨missed, fun place place_le => ?_⟩
          rcases Nat.le_succ_iff.mp place_le with lower | rfl
          · exact all_clear place lower
          · exact clear
        · refine .inr ⟨place, by omega, place_set, fun higher behind higher_le => ?_, found, found_lt,
            found_eq, ?_⟩
          · rcases Nat.le_succ_iff.mp higher_le with lower | rfl
            · exact higher_clear higher behind lower
            · exact clear
          · calc (found + (bit + 1 - place)) % 2 ^ types.valueBits
                = ((found + (bit - place)) % 2 ^ types.valueBits + 1) % 2 ^ types.valueBits := by
                  rw [Nat.mod_add_mod]
                  congr 1
                  omega
              _ = (current_value + 2 ^ types.valueBits - 1 + 1) % 2 ^ types.valueBits := by
                  rw [count_eq, Nat.mod_add_mod]
              _ = current_value := by
                  rw [Nat.sub_add_cancel (by omega), Nat.add_mod_right, Nat.mod_eq_of_lt current_lt]

variable {bucket : Bucket types} {bit : Nat}

/-- The scan of a bucket forwards finds its least value from the place on. -/
theorem scanForwards_bucket (bit_lt : bit < types.BUNCH_BITS) :
    scanForwards types bucket.bits (types.BUNCH_BITS - bit) bit (bucket.start_value + bit) = none ∧
        (∀ value, bucket.Has value → value < bucket.start_value + bit) ∨
      ∃ value, bucket.Has value ∧ bucket.start_value + bit ≤ value ∧
        (∀ other, bucket.Has other → bucket.start_value + bit ≤ other → value ≤ other) ∧
        scanForwards types bucket.bits (types.BUNCH_BITS - bit) bit (bucket.start_value + bit) =
          some value := by
  have bounded := bucket.start_add_le
  rcases @scanForwards_spec types bucket.bits (types.BUNCH_BITS - bit) bit
    (bucket.start_value + bit) (by omega) with
    ⟨missed, all_clear⟩ | ⟨place, bit_le, set, lower_clear, found⟩
  · refine .inl ⟨missed, fun value has => ?_⟩
    obtain ⟨place, place_lt, set, rfl⟩ := has.exists_bit
    by_contra behind
    rw [all_clear place (by omega) (by omega)] at set
    cases set
  · have has := Bucket.has_of_bit set
    have value_lt := has.lt_add
    refine .inr ⟨_, has, by omega, fun other other_has from_bit => ?_, ?_⟩
    · obtain ⟨lower, -, lower_set, rfl⟩ := other_has.exists_bit
      by_contra less
      rw [lower_clear lower (by omega) (by omega)] at lower_set
      cases lower_set
    · rw [found, Nat.mod_eq_of_lt (by omega)]
      congr 1
      omega

/-- The scan of a bucket backwards finds its greatest value up to the place, counted from a value. -/
theorem scanBackwards_counted {current_value : Nat}
    (current_lt : current_value < 2 ^ types.valueBits) :
    scanBackwards types bucket.bits bit current_value = none ∧
        (∀ value, bucket.Has value → bucket.start_value + bit < value) ∨
      ∃ value, bucket.Has value ∧ value ≤ bucket.start_value + bit ∧
        (∀ other, bucket.Has other → other ≤ bucket.start_value + bit → other ≤ value) ∧
        ∃ found < 2 ^ types.valueBits,
          scanBackwards types bucket.bits bit current_value = some found ∧
          (found + (bucket.start_value + bit - value)) % 2 ^ types.valueBits = current_value := by
  rcases @scanBackwards_spec types bucket.bits bit current_value current_lt with
    ⟨missed, all_clear⟩ |
    ⟨place, place_le, set, higher_clear, found, found_lt, found_eq, count_eq⟩
  · refine .inl ⟨missed, fun value has => ?_⟩
    obtain ⟨place, -, set, rfl⟩ := has.exists_bit
    by_contra before
    rw [all_clear place (by omega)] at set
    cases set
  · refine .inr ⟨_, Bucket.has_of_bit set, by omega, fun other other_has up_to => ?_, found, found_lt,
      found_eq, ?_⟩
    · obtain ⟨higher, -, higher_set, rfl⟩ := other_has.exists_bit
      by_contra greater
      rw [higher_clear higher (by omega) (by omega)] at higher_set
      cases higher_set
    · rw [Nat.add_sub_add_left]
      exact count_eq

/-- Counted from the place it starts at, the scan of a bucket backwards ends at the value. -/
theorem scanBackwards_bucket (bit_lt : bit < types.BUNCH_BITS) :
    scanBackwards types bucket.bits bit (bucket.start_value + bit) = none ∧
        (∀ value, bucket.Has value → bucket.start_value + bit < value) ∨
      ∃ value, bucket.Has value ∧ value ≤ bucket.start_value + bit ∧
        (∀ other, bucket.Has other → other ≤ bucket.start_value + bit → other ≤ value) ∧
        scanBackwards types bucket.bits bit (bucket.start_value + bit) = some value := by
  have bounded := bucket.start_add_le
  rcases @scanBackwards_counted types bucket bit (bucket.start_value + bit) (by omega) with
    missed | ⟨value, has, up_to, greatest, found, found_lt, found_eq, count_eq⟩
  · exact .inl missed
  · refine .inr ⟨value, has, up_to, greatest, ?_⟩
    rw [found_eq]
    congr 1
    have start_le := has.1
    rcases Nat.lt_or_ge (found + (bucket.start_value + bit - value)) (2 ^ types.valueBits) with
      inside | wrapped
    · rw [Nat.mod_eq_of_lt inside] at count_eq
      omega
    · rw [Nat.mod_eq_sub_mod wrapped, Nat.mod_eq_of_lt (by omega)] at count_eq
      omega

end Scan

section Tree

variable {bitmap : SparseBitmap types} {key : Nat}

/-- What the relations say of the buckets of a tree. -/
def TreeRight (bitmap : SparseBitmap types) (lt : LocType) (key : Nat) : Option Nat → Prop
  | none => ∀ bucket ∈ bitmap.tree.items, ∀ value, bucket.Has value → ¬ Satisfies key value lt
  | some current => (∃ bucket ∈ bitmap.tree.items, bucket.Has current) ∧ Satisfies key current lt ∧
      ∀ bucket ∈ bitmap.tree.items, ∀ other, bucket.Has other → Satisfies key other lt →
        Nearest current other lt

theorem right_iff_treeRight (many : bitmap.singular = false) (lt : LocType) (found : Option Nat) :
    bitmap.Right lt key found ↔ bitmap.TreeRight lt key found := by
  have has_iff : ∀ value, bitmap.Has value ↔ ∃ bucket ∈ bitmap.tree.items, bucket.Has value := by
    intro value
    rw [Has, if_neg (Bool.eq_false_iff.mp many)]
  cases found with
  | none =>
      refine ⟨fun right bucket member value has => right value ((has_iff value).mpr ⟨bucket, member, has⟩),
        fun right value has => ?_⟩
      obtain ⟨bucket, member, has⟩ := (has_iff value).mp has
      exact right bucket member value has
  | some current =>
      refine ⟨fun ⟨has, related, nearest⟩ => ⟨(has_iff current).mp has, related,
          fun bucket member other other_has => nearest other ((has_iff other).mpr ⟨bucket, member, other_has⟩)⟩,
        fun ⟨has, related, nearest⟩ => ⟨(has_iff current).mpr has, related, fun other other_has => ?_⟩⟩
      obtain ⟨bucket, member, other_has⟩ := (has_iff other).mp other_has
      exact nearest bucket member other other_has

/-- The bucket of the key decides about it. -/
theorem locateTree_equal (key_lt : key < 2 ^ types.valueBits) :
    bitmap.TreeRight .locEqual key (bitmap.locateTree .locEqual key) := by
  obtain ⟨aligned_dvd, aligned_le, key_below⟩ := BitmapTypes.aligned_spec key_lt
  rw [locateTree]
  rcases BePlusTree.locate_equal bitmap.formed (types.aligned key) with
    ⟨missed, other_starts⟩ | ⟨accessor, passed, bucket, ahead, located, at_bucket, start_eq⟩
  · generalize Accessor.locate bitmap.tree Bucket.start_value .locEqual (types.aligned key) = result
      at missed ⊢
    obtain ⟨found, accessor⟩ := result
    obtain rfl : found = false := missed
    rintro bucket member value has rfl
    rcases Nat.lt_or_gt_of_ne (other_starts bucket member) with less | greater
    · have := add_le_of_dvd bucket.start_aligned aligned_dvd less
      have := has.lt_add
      omega
    · have := add_le_of_dvd aligned_dvd bucket.start_aligned greater
      have := has.1
      omega
  · rw [located]
    dsimp only
    rw [at_bucket.current_eq, Option.bind_some]
    have member : bucket ∈ bitmap.tree.items :=
      at_bucket.items_eq ▸ List.mem_append_right _ List.mem_cons_self
    by_cases set : bucket.bits.testBit (key - types.aligned key) = true
    · rw [if_pos set]
      exact ⟨⟨bucket, member, start_eq ▸ aligned_le, start_eq.symm ▸ set⟩, rfl,
        fun _ _ other _ same => same⟩
    · rw [if_neg set]
      rintro other other_member value has rfl
      obtain rfl : other = bucket := by
        have sorted := bitmap.formed.sorted
        rw [at_bucket.items_eq] at other_member
        rcases List.mem_append.mp other_member with before | rest
        · have less := at_bucket.passed_smaller bitmap.formed other before
          have := has.lt_start less
          omega
        · rcases List.mem_cons.mp rest with same | behind
          · exact same
          · have greater := at_bucket.ahead_greater bitmap.formed other behind
            have := add_le_of_dvd bucket.start_aligned other.start_aligned greater
            have := has.1
            omega
      exact set (start_eq ▸ has.2)

/-- The tree forwards of a key. -/
theorem locateTree_greatEqual (key_lt : key < 2 ^ types.valueBits) :
    bitmap.TreeRight .locGreatEqual key (bitmap.locateTree .locGreatEqual key) := by
  obtain ⟨aligned_dvd, aligned_le, key_below⟩ := BitmapTypes.aligned_spec key_lt
  have bunch := @BitmapTypes.two_le_BUNCH_BITS types
  rw [locateTree]
  rcases BePlusTree.locate_greatEqual bitmap.formed (types.aligned key) with
    ⟨missed, starts_less⟩ | ⟨accessor, passed, bucket, ahead, located, at_bucket, passed_less, start_ge⟩
  · generalize Accessor.locate bitmap.tree Bucket.start_value .locGreatEqual (types.aligned key) = result
      at missed ⊢
    obtain ⟨found, accessor⟩ := result
    obtain rfl : found = false := missed
    intro bucket member value has
    have := add_le_of_dvd bucket.start_aligned aligned_dvd (starts_less bucket member)
    have := has.lt_add
    exact Nat.not_le.mpr (by omega)
  · rw [located]
    dsimp only
    rw [at_bucket.current_eq, Option.bind_some, locateForwards]
    have member_iff : ∀ other, other ∈ bitmap.tree.items ↔ other ∈ passed ∨ other = bucket ∨ other ∈ ahead := by
      intro other
      rw [at_bucket.items_eq, List.mem_append, List.mem_cons]
    have passed_values : ∀ other ∈ passed, ∀ value, other.Has value → value < key := by
      intro other before value has
      have := add_le_of_dvd other.start_aligned aligned_dvd (passed_less other before)
      have := has.lt_add
      omega
    -- The place where the scan starts is that of the key or of the first value behind it.
    obtain ⟨bit, bit_lt, start_eq, from_iff⟩ : ∃ bit < types.BUNCH_BITS,
        (if bucket.start_value = types.aligned key then (key - types.aligned key, key)
          else (0, bucket.start_value)) = (bit, bucket.start_value + bit) ∧
        ∀ value, bucket.Has value → (key ≤ value ↔ bucket.start_value + bit ≤ value) := by
      by_cases same : bucket.start_value = types.aligned key
      · refine ⟨key - types.aligned key, by omega, ?_, fun value _ => ?_⟩
        · rw [if_pos same, same, Nat.add_sub_cancel' aligned_le]
        · rw [same, Nat.add_sub_cancel' aligned_le]
      · have := add_le_of_dvd aligned_dvd bucket.start_aligned (by omega)
        refine ⟨0, by omega, by rw [if_neg same, Nat.add_zero], fun value has => ?_⟩
        have := has.1
        omega
    dsimp only
    rw [start_eq]
    dsimp only
    rcases @scanForwards_bucket types bucket bit bit_lt with
      ⟨missed, all_less⟩ | ⟨value, has, from_bit, least, found⟩
    · rw [missed]
      dsimp only
      have bucket_values : ∀ value, bucket.Has value → value < key := by
        intro value has
        have := all_less value has
        have := from_iff value has
        omega
      rcases BePlusTree.getNext_spec bitmap.formed at_bucket with
        ⟨none_ahead, stopped⟩ | ⟨moved, next, rest, ahead_eq, stepped, at_next⟩
      · generalize accessor.getNext bitmap.tree = result at stopped ⊢
        obtain ⟨moved_on, accessor⟩ := result
        obtain rfl : moved_on = false := stopped
        intro other member value has
        rcases (member_iff other).mp member with before | rfl | behind
        · exact Nat.not_le.mpr (passed_values other before value has)
        · exact Nat.not_le.mpr (bucket_values value has)
        · rw [none_ahead] at behind
          cases behind
      · rw [stepped]
        dsimp only
        rw [at_next.current_eq, Option.bind_some]
        have next_greater : bucket.start_value < next.start_value :=
          at_bucket.ahead_greater bitmap.formed next (ahead_eq ▸ List.mem_cons_self)
        have next_beyond : key ≤ next.start_value := by
          have := add_le_of_dvd bucket.start_aligned next.start_aligned next_greater
          omega
        have next_member : next ∈ bitmap.tree.items :=
          at_next.items_eq ▸ List.mem_append_right _ List.mem_cons_self
        rcases @scanForwards_bucket types next 0 (by omega) with
          ⟨-, all_less⟩ | ⟨value, has, -, least, found⟩
        · obtain ⟨value, has⟩ := next.exists_has
          exact absurd has.1 (Nat.not_le.mpr (all_less value has))
        · rw [Nat.add_zero, Nat.sub_zero] at found
          rw [found]
          refine ⟨⟨next, next_member, has⟩, next_beyond.trans has.1, fun other member later later_has from_key => ?_⟩
          rcases (member_iff other).mp member with before | rfl | behind
          · exact absurd from_key (Nat.not_le.mpr (passed_values other before later later_has))
          · exact absurd from_key (Nat.not_le.mpr (bucket_values later later_has))
          · rcases List.mem_cons.mp (ahead_eq ▸ behind) with rfl | after
            · exact least later later_has later_has.1
            · exact ((has.lt_start (at_next.ahead_greater bitmap.formed other after)).trans_le later_has.1).le
    · rw [found]
      dsimp only
      refine ⟨⟨bucket, (member_iff bucket).mpr (.inr (.inl rfl)), has⟩, (from_iff value has).mpr from_bit,
        fun other member later later_has from_key => ?_⟩
      rcases (member_iff other).mp member with before | rfl | behind
      · exact absurd from_key (Nat.not_le.mpr (passed_values other before later later_has))
      · exact least later later_has ((from_iff later later_has).mp from_key)
      · exact ((has.lt_start (at_bucket.ahead_greater bitmap.formed other behind)).trans_le later_has.1).le

/-- The tree backwards of a key whose bucket is there, or that lies before all of them. -/
theorem locateTree_lessEqual (key_lt : key < 2 ^ types.valueBits) (covered : bitmap.Covered key) :
    bitmap.TreeRight .locLessEqual key (bitmap.locateTree .locLessEqual key) := by
  obtain ⟨aligned_dvd, aligned_le, key_below⟩ := BitmapTypes.aligned_spec key_lt
  have bunch := @BitmapTypes.two_le_BUNCH_BITS types
  rw [locateTree]
  rcases BePlusTree.locate_lessEqual bitmap.formed (types.aligned key) with
    ⟨missed, starts_greater⟩ |
    ⟨accessor, passed, bucket, ahead, located, at_bucket, start_le, ahead_greater⟩
  · generalize Accessor.locate bitmap.tree Bucket.start_value .locLessEqual (types.aligned key) = result
      at missed ⊢
    obtain ⟨found, accessor⟩ := result
    obtain rfl : found = false := missed
    intro bucket member value has
    have := add_le_of_dvd aligned_dvd bucket.start_aligned (starts_greater bucket member)
    have := has.1
    exact Nat.not_le.mpr (by omega)
  · rw [located]
    dsimp only
    rw [at_bucket.current_eq, Option.bind_some, locateBackwards]
    have member_iff : ∀ other, other ∈ bitmap.tree.items ↔
        other ∈ passed ∨ other = bucket ∨ other ∈ ahead := by
      intro other
      rw [at_bucket.items_eq, List.mem_append, List.mem_cons]
    have same : bucket.start_value = types.aligned key := by
      rcases covered with ⟨other, member, other_eq⟩ | all_greater
      · rcases (member_iff other).mp member with before | rfl | behind
        · have := at_bucket.passed_smaller bitmap.formed other before
          omega
        · exact other_eq
        · have := ahead_greater other behind
          omega
      · have := all_greater bucket ((member_iff bucket).mpr (.inr (.inl rfl)))
        omega
    have ahead_values : ∀ other ∈ ahead, ∀ value, other.Has value → key < value := by
      intro other behind value has
      have := add_le_of_dvd aligned_dvd other.start_aligned (ahead_greater other behind)
      have := has.1
      omega
    have key_eq : bucket.start_value + (key - types.aligned key) = key := by omega
    have scanned := @scanBackwards_bucket types bucket (key - types.aligned key) (by omega)
    rw [key_eq] at scanned
    dsimp only
    rw [if_pos same]
    dsimp only
    rcases scanned with ⟨missed, all_greater⟩ | ⟨value, has, up_to, greatest, found⟩
    · rw [missed]
      dsimp only
      rcases BePlusTree.getPrev_spec bitmap.formed at_bucket with
        ⟨none_passed, stopped⟩ | ⟨moved, before, prev, passed_eq, stepped, at_prev⟩
      · generalize accessor.getPrev bitmap.tree = result at stopped ⊢
        obtain ⟨moved_on, accessor⟩ := result
        obtain rfl : moved_on = false := stopped
        intro other member value has
        rcases (member_iff other).mp member with earlier | rfl | behind
        · rw [none_passed] at earlier
          cases earlier
        · exact Nat.not_le.mpr (all_greater value has)
        · exact Nat.not_le.mpr (ahead_values other behind value has)
      · rw [stepped]
        dsimp only
        rw [at_prev.current_eq, Option.bind_some]
        have prev_smaller : prev.start_value < bucket.start_value :=
          at_bucket.passed_smaller bitmap.formed prev
            (passed_eq ▸ List.mem_append_right _ List.mem_cons_self)
        have prev_below := add_le_of_dvd prev.start_aligned bucket.start_aligned prev_smaller
        have prev_member : prev ∈ bitmap.tree.items :=
          at_prev.items_eq ▸ List.mem_append_right _ List.mem_cons_self
        rw [Nat.add_sub_assoc (by omega)]
        rcases @scanBackwards_bucket types prev (types.BUNCH_BITS - 1) (by omega) with
          ⟨-, all_greater⟩ | ⟨value, has, up_to, greatest, found⟩
        · obtain ⟨value, has⟩ := prev.exists_has
          have := all_greater value has
          have := has.lt_add
          omega
        · rw [found]
          refine ⟨⟨prev, prev_member, has⟩, show value ≤ key by omega,
            fun other member earlier earlier_has to_key => ?_⟩
          rcases (member_iff other).mp member with passed_mem | rfl | behind
          · rcases List.mem_append.mp (passed_eq ▸ passed_mem) with first | last
            · have smaller := at_prev.passed_smaller bitmap.formed other first
              exact ((earlier_has.lt_start smaller).trans_le has.1).le
            · obtain rfl := List.mem_singleton.mp last
              have := earlier_has.lt_add
              exact greatest earlier earlier_has (by omega)
          · exact absurd to_key (Nat.not_le.mpr (all_greater earlier earlier_has))
          · exact absurd to_key (Nat.not_le.mpr (ahead_values other behind earlier earlier_has))
    · rw [found]
      dsimp only
      refine ⟨⟨bucket, (member_iff bucket).mpr (.inr (.inl rfl)), has⟩, up_to,
        fun other member earlier earlier_has to_key => ?_⟩
      rcases (member_iff other).mp member with before | rfl | behind
      · have smaller := at_bucket.passed_smaller bitmap.formed other before
        exact ((earlier_has.lt_start smaller).trans_le has.1).le
      · exact greatest earlier earlier_has to_key
      · exact absurd to_key (Nat.not_le.mpr (ahead_values other behind earlier earlier_has))

/-- Otherwise the bucket before is scanned from its last bit, but counted from its first value. -/
theorem locateTree_lessEqual_wrong (key_lt : key < 2 ^ types.valueBits)
    (not_covered : ¬ bitmap.Covered key) :
    ¬ bitmap.TreeRight .locLessEqual key (bitmap.locateTree .locLessEqual key) := by
  obtain ⟨aligned_dvd, aligned_le, key_below⟩ := BitmapTypes.aligned_spec key_lt
  have bunch := @BitmapTypes.two_le_BUNCH_BITS types
  obtain ⟨other_starts, ⟨least, least_member, least_le⟩⟩ :
      (∀ bucket ∈ bitmap.tree.items, bucket.start_value ≠ types.aligned key) ∧
        ∃ bucket ∈ bitmap.tree.items, bucket.start_value ≤ key := by
    refine ⟨fun bucket member same => not_covered (.inl ⟨bucket, member, same⟩), ?_⟩
    by_contra none_before
    refine not_covered (.inr fun bucket member => ?_)
    by_contra before
    exact none_before ⟨bucket, member, not_lt.mp before⟩
  rw [locateTree]
  rcases BePlusTree.locate_lessEqual bitmap.formed (types.aligned key) with
    ⟨-, starts_greater⟩ |
    ⟨accessor, passed, bucket, ahead, located, at_bucket, start_le, ahead_greater⟩
  · have := add_le_of_dvd aligned_dvd least.start_aligned (starts_greater least least_member)
    omega
  · rw [located]
    dsimp only
    rw [at_bucket.current_eq, Option.bind_some, locateBackwards]
    have member : bucket ∈ bitmap.tree.items :=
      at_bucket.items_eq ▸ List.mem_append_right _ List.mem_cons_self
    have apart := other_starts bucket member
    have below_aligned := add_le_of_dvd bucket.start_aligned aligned_dvd (by omega)
    have bounded := bucket.start_add_le
    dsimp only
    rw [if_neg apart]
    dsimp only
    rcases @scanBackwards_counted types bucket (types.BUNCH_BITS - 1) _ bucket.start_lt with
      ⟨-, all_greater⟩ | ⟨value, has, -, greatest, found, -, found_eq, count_eq⟩
    · obtain ⟨value, has⟩ := bucket.exists_has
      have := all_greater value has
      have := has.lt_add
      omega
    · rw [found_eq]
      dsimp only
      rintro ⟨⟨other, other_member, other_has⟩, to_key, nearest⟩
      have value_lt := has.lt_add
      have value_le : value ≤ found := nearest bucket member value has (show value ≤ key by omega)
      have to_key : found ≤ key := to_key
      have found_le : found ≤ value := by
        rw [at_bucket.items_eq] at other_member
        rcases List.mem_append.mp other_member with before | rest
        · have smaller := at_bucket.passed_smaller bitmap.formed other before
          exact ((other_has.lt_start smaller).trans_le has.1).le
        · rcases List.mem_cons.mp rest with rfl | behind
          · have := other_has.lt_add
            exact greatest found other_has (by omega)
          · have := add_le_of_dvd aligned_dvd other.start_aligned (ahead_greater other behind)
            have := other_has.1
            omega
      rw [Nat.mod_eq_of_lt (by omega)] at count_eq
      omega

end Tree

variable {bitmap : SparseBitmap types} {key : Nat}

/-- A singular value is compared with the key. -/
theorem locate_singular (single : bitmap.singular = true) (lt : LocType) :
    bitmap.Right lt key (bitmap.locate lt key) := by
  have has_iff : ∀ value, bitmap.Has value ↔ value = bitmap.singular_value := by
    intro value
    rw [Has, if_pos single]
  have compare_iff : compare bitmap.singular_value key lt = true ↔
      Satisfies key bitmap.singular_value lt := by
    cases lt <;> exact decide_eq_true_iff
  have locate_eq : bitmap.locate lt key =
      if compare bitmap.singular_value key lt then some bitmap.singular_value else none :=
    if_pos single
  rw [locate_eq]
  by_cases related : compare bitmap.singular_value key lt = true
  · rw [if_pos related]
    refine ⟨(has_iff _).mpr rfl, compare_iff.mp related, fun other other_has _ => ?_⟩
    rw [(has_iff other).mp other_has]
    cases lt
    case locEqual => exact rfl
    all_goals exact Nat.le_refl _
  · rw [if_neg related]
    intro value has satisfies
    rw [(has_iff value).mp has] at satisfies
    exact related (compare_iff.mpr satisfies)

/-- Other bitmaps are searched in the tree. -/
theorem locate_many (many : ¬ bitmap.singular = true) (lt : LocType) :
    bitmap.locate lt key = match lt with
      | .locEqual => bitmap.locateTree .locEqual key
      | .locGreatEqual => bitmap.locateTree .locGreatEqual key
      | .locLessEqual => bitmap.locateTree .locLessEqual key
      | .locLess => if key = 0 then none else bitmap.locateTree .locLessEqual (key - 1)
      | .locGreat =>
          if key = 2 ^ types.valueBits - 1 then none
          else bitmap.locateTree .locGreatEqual (key + 1) := by
  cases lt <;> exact if_neg many

/-- `locLess` asks for what is at most the key before. -/
theorem treeRight_less_iff (key_pos : key ≠ 0) (found : Option Nat) :
    bitmap.TreeRight .locLess key found ↔ bitmap.TreeRight .locLessEqual (key - 1) found := by
  have satisfies_iff : ∀ value, Satisfies key value .locLess ↔ Satisfies (key - 1) value .locLessEqual :=
    fun value => show value < key ↔ value ≤ key - 1 by omega
  cases found <;> simp only [TreeRight, satisfies_iff, Nearest]

/-- `locGreat` asks for what is at least the key behind. -/
theorem treeRight_great_iff (found : Option Nat) :
    bitmap.TreeRight .locGreat key found ↔ bitmap.TreeRight .locGreatEqual (key + 1) found := by
  have satisfies_iff : ∀ value, Satisfies key value .locGreat ↔
      Satisfies (key + 1) value .locGreatEqual := fun value => Iff.rfl
  cases found <;> simp only [TreeRight, satisfies_iff, Nearest]

/-- `locLessEqual` in the tree is right exactly if the key is covered. -/
theorem locateTree_lessEqual_iff (key_lt : key < 2 ^ types.valueBits) :
    bitmap.TreeRight .locLessEqual key (bitmap.locateTree .locLessEqual key) ↔ bitmap.Covered key := by
  refine ⟨fun right => ?_, locateTree_lessEqual key_lt⟩
  by_contra not_covered
  exact locateTree_lessEqual_wrong key_lt not_covered right

/-- `locate` finds the nearest value in the relation exactly if it needs no bucket before that of the
key, or finds that bucket first. -/
theorem locate_right_iff (bitmap : SparseBitmap types) (lt : LocType) {key : Nat}
    (key_lt : key < 2 ^ types.valueBits) :
    bitmap.Right lt key (bitmap.locate lt key) ↔ bitmap.Located lt key := by
  by_cases single : bitmap.singular = true
  · exact iff_of_true (locate_singular single lt) (.inl single)
  · have located_iff : bitmap.Located lt key ↔ _ := or_iff_right single
    rw [right_iff_treeRight (Bool.eq_false_iff.mpr single), located_iff, locate_many single]
    cases lt with
    | locEqual => exact iff_true_intro (locateTree_equal key_lt)
    | locGreatEqual => exact iff_true_intro (locateTree_greatEqual key_lt)
    | locLessEqual => exact locateTree_lessEqual_iff key_lt
    | locLess =>
        dsimp only
        by_cases first : key = 0
        · rw [if_pos first]
          exact iff_of_true (fun _ _ value _ => first ▸ Nat.not_lt_zero value) (.inl first)
        · rw [if_neg first, treeRight_less_iff first, locateTree_lessEqual_iff (by omega)]
          exact (or_iff_right first).symm
    | locGreat =>
        dsimp only
        by_cases last : key = 2 ^ types.valueBits - 1
        · rw [if_pos last]
          refine iff_true_intro fun bucket _ value has => Nat.not_lt.mpr ?_
          have := bucket.start_add_le
          have := has.lt_add
          omega
        · rw [if_neg last, treeRight_great_iff]
          exact iff_true_intro (locateTree_greatEqual (by omega))

end SparseBitmap

/-- 64-bit values in buckets of 64 bits. -/
def wideTypes : BitmapTypes where
  valueBits := 64
  bunchLog := 6
  bunchLog_pos := by decide
  bunchLog_le := by decide

/-- The values 5 and 7. -/
def fiveAndSeven : SparseBitmap wideTypes where
  singular := false
  singular_value := 0
  tree := ⟨0, some [⟨0, 2 ^ 5 + 2 ^ 7, Nat.dvd_zero _, by decide, by decide, by decide⟩]⟩
  formed := ⟨List.pairwise_singleton _ _, fun _ _ level_ne => absurd rfl level_ne⟩

/-- In its own bucket the greatest value up to 6 is found. -/
theorem own_bucket_located :
    fiveAndSeven.locate .locLessEqual 6 = some 5 ∧
      fiveAndSeven.Right .locLessEqual 6 (fiveAndSeven.locate .locLessEqual 6) :=
  ⟨by decide +kernel, (fiveAndSeven.locate_right_iff .locLessEqual (by decide)).mpr
    (.inr (.inl ⟨_, List.mem_cons_self, by decide⟩))⟩

/-- From the next bucket the greatest value up to 100 comes out as a number that is not there. -/
theorem previous_bucket_miscounted :
    fiveAndSeven.locate .locLessEqual 100 = some (2 ^ 64 - 56) ∧
      ¬ fiveAndSeven.Right .locLessEqual 100 (fiveAndSeven.locate .locLessEqual 100) := by
  have located : fiveAndSeven.locate .locLessEqual 100 = some (2 ^ 64 - 56) := by decide +kernel
  refine ⟨located, fun right => ?_⟩
  rw [located] at right
  have to_key : 2 ^ 64 - 56 ≤ 100 := right.2.1
  omega

end Firebird
