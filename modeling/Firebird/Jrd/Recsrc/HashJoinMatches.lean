import Mathlib.Data.List.Flatten
import Firebird.Jrd.Recsrc.HashJoinOpen

/-!
# What a hash join delivers

A hash join delivers each combination with equal keys exactly once if values that compare equal are
stored in one form.  Zeros of different signs and decimals of different exponents are not, and a
combination with them gets lost when their hashes differ.
-/

namespace Firebird
namespace HashJoin

open Odometer (fromLast fromLast_succ fromLast_congr map_fromLast mem_fromLast
  exists_of_mem_fromLast forall₂_fromLast)

variable {types : List KeyType} {Record : Type*}

/-- The keys of each inner row compare equal with those of the leading row. -/
def matching (combination : Combination types Record) : Bool :=
  combination.2.all fun inner => keysEqual types combination.1.keys inner.keys

namespace Join

/-- All combinations. -/
def combinations (join : Join types Record) : List (Combination types Record) :=
  join.m_leader.flatMap fun leader =>
    (fromLast join.m_args join.argCount).sections.map (leader, ·)

/-- Keys that compare equal have one hash. -/
def HashesAgree (join : Join types Record) (hash : List UInt8 → Nat) (leaderGarbage : List UInt8)
    (garbage : Nat → List UInt8) : Prop :=
  ∀ leader ∈ hashed hash join.m_leader leaderGarbage, ∀ stream < join.argCount,
    ∀ inner ∈ hashed hash (join.m_args stream) (garbage stream),
      keysEqual types leader.1.keys inner.1.keys = true → leader.2 = inner.2

/-- From `open` on the join delivers combinations, each of them at most once and those with equal
keys exactly once, and keys that compare equal have one hash. -/
def Joined (join : Join types Record) (hash : List UInt8 → Nat) (leaderGarbage : List UInt8)
    (garbage : Nat → List UInt8) : Prop :=
  (∀ passes, ∃ delivered,
    join.Delivers hash (passes + 1)
        (join.getRecord hash (passes + 1) (join.opened hash leaderGarbage garbage)) delivered ∧
      delivered.Subperm join.combinations ∧
      (delivered.filter matching).Perm (join.combinations.filter matching)) ∧
    join.HashesAgree hash leaderGarbage garbage

/-- Values that compare equal are stored in one form. -/
def StoredAlike (join : Join types Record) : Prop :=
  ∀ leader ∈ join.m_leader, ∀ stream < join.argCount, ∀ inner ∈ join.m_args stream,
    keysEqual types leader.keys inner.keys = true → SameForms types leader.keys inner.keys

variable (join : Join types Record) (hash : List UInt8 → Nat) (leaderGarbage : List UInt8)
  (garbage : Nat → List UInt8)

/-- The hashed rows of the inner streams. -/
def hashedArgs : List (List (Row types Record × Nat)) :=
  fromLast (fun stream => hashed hash (join.m_args stream) (garbage stream)) join.argCount

theorem map_hashedArgs :
    (join.hashedArgs hash garbage).map (List.map Prod.fst) = fromLast join.m_args join.argCount := by
  rw [hashedArgs, map_fromLast]
  exact fromLast_congr fun stream _ => map_fst_hashed hash _ _

/-- The combinations whose hashes agree. -/
def collisions : List (Combination types Record) :=
  (hashed hash join.m_leader leaderGarbage).flatMap fun leader =>
    ((join.hashedArgs hash garbage).sections.filter (·.all (·.2 = leader.2))).map
      fun choice => (leader.1, choice.map Prod.fst)

theorem combinations_eq :
    join.combinations = (hashed hash join.m_leader leaderGarbage).flatMap fun leader =>
      (join.hashedArgs hash garbage).sections.map fun choice => (leader.1, choice.map Prod.fst) := by
  rw [combinations, ← map_hashedArgs join hash garbage, Odometer.sections_map_map]
  conv_lhs => rw [← map_fst_hashed hash join.m_leader leaderGarbage]
  rw [List.flatMap_map]
  simp only [List.map_map]
  rfl

variable {join}

theorem deliveries_perm
    (small : ∀ stream < join.argCount, (join.m_args stream).length < 2 ^ 32)
    (leader : List (Row types Record)) (keyBuffer : List UInt8) :
    (join.deliveries hash (join.filledTable hash garbage) leader keyBuffer).Perm
      ((hashed hash leader keyBuffer).flatMap fun leader =>
        ((join.hashedArgs hash garbage).sections.filter (·.all (·.2 = leader.2))).map
          fun choice => (leader.1, choice.map Prod.fst)) := by
  induction leader generalizing keyBuffer with
  | nil => exact .refl _
  | cons row leader ih =>
      rw [deliveries]
      refine List.Perm.append ?_ (ih _)
      generalize fillBuffer types row.keys keyBuffer = image
      have alike := forall₂_fromLast fun stream stream_lt =>
        rowsAt_filledTable hash garbage small stream_lt (hash image)
      refine ((Odometer.sections_perm alike).map _).trans (.of_eq ?_)
      have lists_eq : fromLast (fun stream => ((hashed hash (join.m_args stream)
          (garbage stream)).filter (·.2 = hash image)).map Prod.fst) join.argCount =
          ((join.hashedArgs hash garbage).map (List.filter (·.2 = hash image))).map
            (List.map Prod.fst) := by
        rw [hashedArgs, map_fromLast, map_fromLast]
      rw [lists_eq, Odometer.sections_map_map, Odometer.sections_map_filter, List.map_map]
      rfl

/-- A row in a choice from the hashed rows comes from one of the streams. -/
theorem stream_of_mem_choice {choice : List (Row types Record × Nat)}
    (chosen : choice ∈ (join.hashedArgs hash garbage).sections) {keyed : Row types Record × Nat}
    (member : keyed ∈ choice) :
    ∃ stream < join.argCount, keyed ∈ hashed hash (join.m_args stream) (garbage stream) := by
  rw [List.mem_sections] at chosen
  rw [hashedArgs] at chosen
  generalize join.argCount = count at chosen ⊢
  induction count generalizing choice with
  | zero =>
      cases chosen
      cases member
  | succ count ih =>
      rw [fromLast_succ] at chosen
      cases chosen with
      | cons here others =>
          rcases List.mem_cons.mp member with rfl | later
          · exact ⟨count, Nat.lt_succ_self count, here⟩
          · obtain ⟨stream, before, in_stream⟩ := ih later others
            exact ⟨stream, Nat.lt_succ_of_lt before, in_stream⟩

theorem matching_collisions (agree : join.HashesAgree hash leaderGarbage garbage) :
    (join.collisions hash leaderGarbage garbage).filter matching =
      join.combinations.filter matching := by
  rw [combinations_eq join hash leaderGarbage garbage, collisions, List.filter_flatMap,
    List.filter_flatMap]
  refine List.flatMap_congr fun leader leader_mem => ?_
  rw [List.filter_map, List.filter_map, List.filter_filter]
  congr 1
  refine List.filter_congr fun choice chosen => ?_
  rw [Bool.and_eq_left_iff_imp]
  intro matched
  refine List.all_eq_true.mpr fun keyed member => decide_eq_true ?_
  obtain ⟨stream, stream_lt, in_stream⟩ := stream_of_mem_choice hash garbage chosen member
  refine (agree leader leader_mem stream stream_lt keyed in_stream ?_).symm
  exact List.all_eq_true.mp matched keyed.1 (List.mem_map_of_mem member)

theorem collisions_sublist :
    (join.collisions hash leaderGarbage garbage).Sublist join.combinations := by
  rw [combinations_eq join hash leaderGarbage garbage, collisions]
  exact List.Sublist.flatMap_right _ fun leader _ => List.filter_sublist.map _

/-- Keys that compare equal have one hash, whatever the hash function, exactly when their values are
stored in one form. -/
theorem hashesAgree_iff
    (leader_fills : ∀ leader ∈ join.m_leader, FillParts types leader.keys)
    (args_fill : ∀ stream < join.argCount, ∀ inner ∈ join.m_args stream,
      FillParts types inner.keys) :
    (∀ hash, join.HashesAgree hash leaderGarbage garbage) ↔ join.StoredAlike := by
  have image_iff : ∀ leader ∈ imaged join.m_leader leaderGarbage, ∀ stream < join.argCount,
      ∀ inner ∈ imaged (join.m_args stream) (garbage stream),
      keysEqual types leader.1.keys inner.1.keys = true →
      (leader.2 = inner.2 ↔ SameForms types leader.1.keys inner.1.keys) := by
    intro leader leader_mem stream stream_lt inner inner_mem equal
    obtain ⟨leader_row, before, leader_image⟩ := exists_of_mem_imaged leader_mem
    obtain ⟨inner_row, other, inner_image⟩ := exists_of_mem_imaged inner_mem
    rw [leader_image, inner_image]
    exact fillBuffer_eq_iff equal (leader_fills _ leader_row)
      (args_fill stream stream_lt _ inner_row) before other
  constructor
  · intro agree leader leader_mem stream stream_lt inner inner_mem equal
    obtain ⟨image, leader_imaged⟩ := exists_mem_imaged leaderGarbage leader_mem
    obtain ⟨other, inner_imaged⟩ := exists_mem_imaged (garbage stream) inner_mem
    -- a hash function that tells the leading row's image from all others
    have same := agree (fun bytes => if bytes = image then 0 else 1) _
      (List.mem_map_of_mem leader_imaged) stream stream_lt _ (List.mem_map_of_mem inner_imaged) equal
    refine (image_iff _ leader_imaged stream stream_lt _ inner_imaged equal).mp ?_
    by_contra differ
    exact absurd ((if_pos rfl).symm.trans (same.trans (if_neg (Ne.symm differ)))) Nat.zero_ne_one
  · intro alike hash leader leader_mem stream stream_lt inner inner_mem equal
    obtain ⟨leader, leader_imaged, rfl⟩ := List.mem_map.mp leader_mem
    obtain ⟨inner, inner_imaged, rfl⟩ := List.mem_map.mp inner_mem
    refine congrArg hash ((image_iff leader leader_imaged stream stream_lt inner inner_imaged
      equal).mpr ?_)
    exact alike _ (exists_of_mem_imaged leader_imaged).1 stream stream_lt _
      (exists_of_mem_imaged inner_imaged).1 equal

/-- From `open` on the combinations with agreeing hashes are delivered, in some order. -/
theorem delivers_collisions
    (small : ∀ stream < join.argCount, (join.m_args stream).length < 2 ^ 32) (passes : Nat) :
    ∃ delivered, join.Delivers hash (passes + 1)
        (join.getRecord hash (passes + 1) (join.opened hash leaderGarbage garbage)) delivered ∧
      delivered.Perm (join.collisions hash leaderGarbage garbage) :=
  ⟨_, fetchLeader_delivers (populated_filledTable hash garbage small) rfl (.refl _) join.m_leader,
    deliveries_perm hash garbage small join.m_leader leaderGarbage⟩

theorem joined_iff_hashesAgree
    (small : ∀ stream < join.argCount, (join.m_args stream).length < 2 ^ 32) :
    join.Joined hash leaderGarbage garbage ↔ join.HashesAgree hash leaderGarbage garbage := by
  refine ⟨And.right, fun agree => ⟨fun passes => ?_, agree⟩⟩
  obtain ⟨delivered, delivers, perm⟩ := delivers_collisions hash leaderGarbage garbage small passes
  refine ⟨delivered, delivers, ?_, ?_⟩
  · exact perm.subperm.trans (collisions_sublist hash leaderGarbage garbage).subperm
  · rw [← matching_collisions hash leaderGarbage garbage agree]
    exact perm.filter _

end Join

/-- Three streams with integer keys, two of them in the second inner stream. -/
def threeStreams : Join [.exact 1] Nat where
  m_leader := [⟨0, some ⟨[7], rfl⟩, ()⟩]
  argCount := 2
  m_args stream :=
    if stream = 0 then [⟨1, some ⟨[7], rfl⟩, ()⟩]
    else [⟨2, some ⟨[7], rfl⟩, ()⟩, ⟨3, some ⟨[8], rfl⟩, ()⟩]
  argCount_pos := Nat.two_pos

/-- Two streams of one row each, whose keys are a positive and a negative zero. -/
def zeros : Join [.double] Unit where
  m_leader := [⟨(), some (0 : BitVec 64), ()⟩]
  argCount := 1
  m_args _ := [⟨(), some (BitVec.ofNat 64 (2 ^ 63)), ()⟩]
  argCount_pos := Nat.one_pos

end HashJoin
end Firebird
