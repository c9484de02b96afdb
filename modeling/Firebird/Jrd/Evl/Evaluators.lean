import Mathlib
import Firebird.Jrd.Evl.Kmp

/-!
# Searching a text that comes in chunks

`StartsEvaluator` and `ContainsEvaluator` get a text in chunks of any lengths and carry an offset in
their pattern from one chunk to the next.
-/

namespace Firebird
namespace Kmp

open Borders

variable {α : Type} [DecidableEq α]

/-- The bytes that `alloc` is asked for: the count is passed as an `SLONG`, and a negative one takes
nothing from the static buffer. -/
def allocCount (count : Nat) : Nat :=
  if count % 2 ^ 32 < 2 ^ 31 then count % 2 ^ 32 else 0

/-- `StartsEvaluator`. -/
structure StartsEvaluator (α : Type) where
  offset : Nat
  pattern_str : List α
  result : Bool

namespace StartsEvaluator

/-- The constructor. -/
def create (pattern : List α) : StartsEvaluator α := ⟨0, pattern, true⟩

/-- `getResult`. -/
def getResult (evaluator : StartsEvaluator α) : Bool :=
  evaluator.pattern_str.length ≤ evaluator.offset && evaluator.result

/-- `processNextChunk`, with whether it needs more. -/
def processNextChunk (evaluator : StartsEvaluator α) (data : List α) : StartsEvaluator α × Bool :=
  let pattern_len := evaluator.pattern_str.length
  if evaluator.result = false ∨ pattern_len ≤ evaluator.offset then
    (evaluator, false)
  else
    let comp_length :=
      if data.length < pattern_len - evaluator.offset then data.length
      else pattern_len - evaluator.offset
    if data.take comp_length ≠ (evaluator.pattern_str.drop evaluator.offset).take comp_length then
      ({ evaluator with result := false }, false)
    else
      let offset := evaluator.offset + comp_length
      ({ evaluator with offset := offset }, decide (offset < pattern_len))

/-- Chunks are processed until the evaluator needs no more. -/
def feed (evaluator : StartsEvaluator α) : List (List α) → StartsEvaluator α
  | [] => evaluator
  | data :: chunks =>
      let (evaluator, more) := evaluator.processNextChunk data
      if more then feed evaluator chunks else evaluator

end StartsEvaluator

/-- `ContainsEvaluator`. -/
structure ContainsEvaluator (α : Type) where
  pattern_str : List α
  offset : Int
  result : Bool
  kmpNext : Table

namespace ContainsEvaluator

/-- The constructor. -/
def create (pattern : List α) : Except Fault (ContainsEvaluator α) := do
  let kmpNext ← preKmp pattern ⟨allocCount (4 * (pattern.length + 1)) / 4, fun _ => 0⟩
  pure ⟨pattern, 0, decide (pattern.length = 0), kmpNext⟩

/-- The loop of `processNextChunk`. -/
def scan (evaluator : ContainsEvaluator α) : List α → Except Fault (ContainsEvaluator α × Bool)
  | [] => .ok (evaluator, true)
  | item :: data => do
      let offset ← follow evaluator.pattern_str (some item) evaluator.kmpNext
        (evaluator.pattern_str.length + 1) evaluator.offset
      let offset := offset + 1
      if evaluator.pattern_str.length ≤ offset then
        .ok ({ evaluator with offset := offset, result := true }, false)
      else
        scan { evaluator with offset := offset } data

/-- `processNextChunk`, with whether it needs more. -/
def processNextChunk (evaluator : ContainsEvaluator α) (data : List α) :
    Except Fault (ContainsEvaluator α × Bool) :=
  if evaluator.result then .ok (evaluator, false) else evaluator.scan data

/-- Chunks are processed until the evaluator needs no more. -/
def feed (evaluator : ContainsEvaluator α) : List (List α) → Except Fault (ContainsEvaluator α)
  | [] => .ok evaluator
  | data :: chunks => do
      let (evaluator, more) ← evaluator.processNextChunk data
      if more then feed evaluator chunks else .ok evaluator

end ContainsEvaluator

/-- Whether `StartsEvaluator` finds a pattern at the start of a text. -/
def starts (pattern : List α) (chunks : List (List α)) : Bool :=
  ((StartsEvaluator.create pattern).feed chunks).getResult

/-- Whether `ContainsEvaluator` finds a pattern in a text. -/
def contains (pattern : List α) (chunks : List (List α)) : Except Fault Bool := do
  let evaluator ← ContainsEvaluator.create pattern
  let evaluator ← evaluator.feed chunks
  pure evaluator.result

/-! ## Starts -/

/-- The text so far agrees with the pattern up to the offset. -/
structure Started (pattern text : List α) (evaluator : StartsEvaluator α) : Prop where
  pattern_str : evaluator.pattern_str = pattern
  result : evaluator.result = true
  unfinished : evaluator.offset < pattern.length
  offset : evaluator.offset = text.length
  agrees : text <+: pattern

omit [DecidableEq α] in
theorem prefix_append_iff {text pattern data : List α} (agrees : text <+: pattern) :
    pattern <+: text ++ data ↔ pattern.drop text.length <+: data := by
  obtain ⟨rest, rfl⟩ := agrees
  rw [List.prefix_append_right_inj, List.drop_left]

theorem Started.processNextChunk {pattern text : List α} {evaluator : StartsEvaluator α}
    (started : Started pattern text evaluator) (data : List α) :
    ∃ after more, evaluator.processNextChunk data = (after, more) ∧
      ((more = true ∧ Started pattern (text ++ data) after) ∨
        (more = false ∧ ∀ rest, after.getResult = true ↔ pattern <+: text ++ (data ++ rest))) := by
  obtain ⟨rfl, result, unfinished, offset, agrees⟩ := started
  rw [StartsEvaluator.processNextChunk]
  dsimp only
  rw [if_neg (by rw [result]; simpa using unfinished)]
  generalize length_eq : (if data.length < evaluator.pattern_str.length - evaluator.offset then
    data.length else evaluator.pattern_str.length - evaluator.offset) = comp_length
  have rest_eq : evaluator.pattern_str.drop text.length =
      evaluator.pattern_str.drop evaluator.offset := by rw [offset]
  split
  · rename_i differ
    refine ⟨_, _, rfl, .inr ⟨rfl, fun rest => ?_⟩⟩
    rw [StartsEvaluator.getResult]
    dsimp only
    rw [Bool.and_false, prefix_append_iff agrees, rest_eq]
    refine ⟨fun absurdity => absurd absurdity Bool.false_ne_true, fun found => ?_⟩
    refine absurd ?_ differ
    obtain ⟨behind, same⟩ := found
    have both := congrArg (List.take comp_length) same
    rw [List.take_append_of_le_length, List.take_append_of_le_length] at both
    · exact both.symm
    · split at length_eq <;> omega
    · rw [List.length_drop]
      split at length_eq <;> omega
  · rename_i equal
    have same := not_not.mp equal
    by_cases more : evaluator.offset + comp_length < evaluator.pattern_str.length
    · refine ⟨_, _, rfl, .inl ⟨decide_eq_true more, rfl, result, more, ?_, ?_⟩⟩
      · rw [List.length_append, ← offset]
        split at length_eq
        · rw [← length_eq]
        · omega
      · have whole : comp_length = data.length := by
          split at length_eq
          · exact length_eq.symm
          · omega
        rw [whole, List.take_length] at same
        obtain ⟨rest, pattern_eq⟩ := agrees
        refine ⟨rest.drop data.length, ?_⟩
        have rest_is : evaluator.pattern_str.drop evaluator.offset = rest := by
          rw [offset, ← pattern_eq, List.drop_left]
        rw [rest_is] at same
        have joined : data ++ rest.drop data.length = rest := by
          nth_rewrite 1 [same]
          exact List.take_append_drop _ _
        rw [List.append_assoc, joined, pattern_eq]
    · refine ⟨_, _, rfl, .inr ⟨decide_eq_false more, fun rest => ?_⟩⟩
      have whole : comp_length = (evaluator.pattern_str.drop evaluator.offset).length := by
        rw [List.length_drop]
        split at length_eq <;> omega
      rw [StartsEvaluator.getResult]
      dsimp only
      rw [result, Bool.and_true, decide_eq_true_iff, prefix_append_iff agrees, rest_eq]
      refine ⟨fun _ => ?_, fun _ => Nat.le_of_not_lt more⟩
      rw [whole, List.take_length] at same
      exact ((List.prefix_iff_eq_take.mpr same.symm)).trans (List.prefix_append _ _)

theorem Started.feed {pattern text : List α} {chunks : List (List α)}
    {evaluator : StartsEvaluator α} (started : Started pattern text evaluator) :
    (evaluator.feed chunks).getResult = true ↔ pattern <+: text ++ chunks.flatten := by
  induction chunks generalizing text evaluator with
  | nil =>
      obtain ⟨rfl, result, unfinished, offset, agrees⟩ := started
      rw [StartsEvaluator.feed, StartsEvaluator.getResult, result, Bool.and_true, decide_eq_true_iff,
        List.flatten_nil, List.append_nil]
      refine ⟨fun finished => absurd unfinished (Nat.not_lt.mpr finished), fun found => ?_⟩
      rw [offset]
      exact found.length_le
  | cons data chunks ih =>
      rw [StartsEvaluator.feed, List.flatten_cons]
      obtain ⟨after, more, run, ⟨rfl, next⟩ | ⟨rfl, result⟩⟩ := started.processNextChunk data
      · rw [run, ← List.append_assoc]
        exact ih next
      · rw [run]
        exact result chunks.flatten

/-- `StartsEvaluator` reports whether the pattern is a prefix of the text. -/
theorem starts_iff (pattern : List α) (chunks : List (List α)) :
    starts pattern chunks = true ↔ pattern <+: chunks.flatten := by
  cases pattern with
  | nil =>
      refine iff_of_true ?_ List.nil_prefix
      cases chunks with
      | nil => rfl
      | cons data chunks => rfl
  | cons item pattern =>
      have started : Started (item :: pattern) [] (.create (item :: pattern)) :=
        ⟨rfl, rfl, Nat.succ_pos _, rfl, List.nil_prefix⟩
      exact started.feed

/-! ## Contains -/

/-- The pattern has not occurred so far, and the offset is its longest prefix at the end of the
text. -/
structure Scanned (pattern text : List α) (evaluator : ContainsEvaluator α) : Prop where
  pattern_str : evaluator.pattern_str = pattern
  result : evaluator.result = false
  sound : Sound pattern evaluator.kmpNext pattern.length
  greatest : Greatest (EndsWith pattern text) pattern.length evaluator.offset
  unseen : ¬pattern <:+: text

theorem Scanned.scan {pattern text : List α} {evaluator : ContainsEvaluator α}
    (scanned : Scanned pattern text evaluator) (data : List α) :
    ∃ after more, evaluator.scan data = .ok (after, more) ∧
      ((more = true ∧ Scanned pattern (text ++ data) after) ∨
        (more = false ∧ after.result = true ∧ pattern <:+: text ++ data)) := by
  induction data generalizing text evaluator with
  | nil =>
      refine ⟨evaluator, true, rfl, .inl ⟨rfl, ?_⟩⟩
      rw [List.append_nil]
      exact scanned
  | cons item data ih =>
      obtain ⟨rfl, result, sound, greatest, unseen⟩ := scanned
      have bound : evaluator.offset < evaluator.pattern_str.length := by
        rcases greatest.exists_or_none with none | ⟨number, same, below, -⟩
        · omega
        · omega
      obtain ⟨found, run, -, fitting⟩ := @follow_greatest _ _ evaluator.pattern_str text
        evaluator.kmpNext _ _ sound (some item) (evaluator.pattern_str.length + 1) _ greatest bound
        (by omega)
      have next := fitting.next
      rw [ContainsEvaluator.scan, run]
      simp only [bind, Except.bind]
      rw [List.append_cons]
      by_cases whole : (evaluator.pattern_str.length : Int) ≤ found + 1
      · rw [if_pos whole]
        refine ⟨_, false, rfl, .inr ⟨rfl, rfl, ?_⟩⟩
        rcases next.exists_or_none with none | ⟨number, same, below, ends⟩
        · omega
        · obtain rfl : number = evaluator.pattern_str.length := by omega
          exact (endsWith_length.mp ends).isInfix.trans (List.prefix_append _ _).isInfix
      · rw [if_neg whole]
        refine @ih (text ++ [item]) _ ⟨rfl, result, sound, ⟨?_, ?_⟩, ?_⟩
        · rcases next.exists_or_none with none | ⟨number, same, below, ends⟩
          · exact .inl none
          · exact .inr ⟨number, same, by omega, ends⟩
        · exact fun other below => next.le_found other (Nat.lt_succ_of_lt below)
        · rw [List.infix_concat_iff]
          rintro (suffix | seen)
          · have least := next.le_found _ (Nat.lt_succ_self _) (endsWith_length.mpr suffix)
            omega
          · exact unseen seen

theorem Scanned.feed {pattern text : List α} {evaluator : ContainsEvaluator α}
    (scanned : Scanned pattern text evaluator) (chunks : List (List α)) :
    ∃ after, evaluator.feed chunks = .ok after ∧
      (after.result = true ↔ pattern <:+: text ++ chunks.flatten) := by
  induction chunks generalizing text evaluator with
  | nil =>
      refine ⟨evaluator, rfl, ?_⟩
      rw [scanned.result, List.flatten_nil, List.append_nil]
      exact ⟨fun absurdity => absurd absurdity Bool.false_ne_true,
        fun seen => absurd seen scanned.unseen⟩
  | cons data chunks ih =>
      have running : evaluator.processNextChunk data = evaluator.scan data := by
        rw [ContainsEvaluator.processNextChunk, if_neg]
        rw [scanned.result]
        exact Bool.false_ne_true
      rw [ContainsEvaluator.feed, running, List.flatten_cons]
      obtain ⟨after, more, run, ⟨rfl, next⟩ | ⟨rfl, found, occurs⟩⟩ := scanned.scan data
      · rw [run, ← List.append_assoc]
        exact ih next
      · rw [run]
        refine ⟨after, rfl, iff_of_true found ?_⟩
        rw [← List.append_assoc]
        exact occurs.trans (List.prefix_append _ _).isInfix

/-- Both evaluators report what they should, with a table that is not overrun. -/
def Reports (pattern : List α) : Prop :=
  ∀ chunks : List (List α),
    (starts pattern chunks = true ↔ pattern <+: chunks.flatten) ∧
    ∃ found, contains pattern chunks = .ok found ∧ (found = true ↔ pattern <:+: chunks.flatten)

/-- The table of an empty pattern is overrun by one entry, and that of a pattern whose table has
2^31 bytes by many; all other patterns are found where they occur. -/
theorem reports_iff (pattern : List α) :
    Reports pattern ↔ pattern ≠ [] ∧ 4 * (pattern.length + 1) < 2 ^ 31 := by
  constructor
  · intro reports
    obtain ⟨-, found, run, -⟩ := reports []
    rw [contains] at run
    obtain ⟨evaluator, create, -⟩ := bind_eq_ok.mp run
    rw [ContainsEvaluator.create] at create
    obtain ⟨filled, fill, -⟩ := bind_eq_ok.mp create
    have room := preKmp_room fill
    rw [allocCount] at room
    dsimp only at room
    constructor
    · rintro rfl
      rw [List.length_nil] at room
      exact absurd room (by decide)
    · by_contra large
      split at room <;> omega
  · rintro ⟨some_character, small⟩ chunks
    refine ⟨starts_iff pattern chunks, ?_⟩
    have room : pattern.length + 1 ≤ allocCount (4 * (pattern.length + 1)) / 4 := by
      rw [allocCount, Nat.mod_eq_of_lt (by omega), if_pos small]
      omega
    obtain ⟨filled, fill, sound⟩ := @preKmp_spec _ _ pattern
      ⟨allocCount (4 * (pattern.length + 1)) / 4, fun _ => 0⟩ some_character room
    have positive := List.length_pos_iff.mpr some_character
    have scanned : Scanned pattern [] ⟨pattern, 0, decide (pattern.length = 0), filled⟩ := by
      refine ⟨rfl, decide_eq_false positive.ne', sound, ⟨?_, fun other below ends => ?_⟩, ?_⟩
      · exact .inr ⟨0, rfl, positive, endsWith_zero _ _⟩
      · have bound := ends.le_length
        rw [List.length_nil] at bound
        exact Int.ofNat_le.mpr bound
      · exact fun occurs => some_character (List.infix_nil.mp occurs)
    obtain ⟨after, run, result⟩ := scanned.feed chunks
    refine ⟨after.result, ?_, result⟩
    rw [contains, ContainsEvaluator.create, fill]
    simp only [bind, Except.bind, pure, Except.pure]
    rw [run]

/-- `preKmp` writes a second entry into the table of an empty pattern. -/
theorem not_reports_empty : ¬∀ pattern : List UInt8, Reports pattern := fun reports =>
  ((reports_iff []).mp (reports [])).1 rfl

end Kmp
end Firebird
