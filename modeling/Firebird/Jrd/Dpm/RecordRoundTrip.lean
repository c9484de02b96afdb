import Firebird.Jrd.Dpm.LineOps
import Firebird.Jrd.Dpm.RecordChain

/-!
# Records are read back as they were stored

`store_big_record` walks over the control bytes of the whole record from its end.  At every page it
stands behind some of the runs, or inside a literal run, and the size it keeps is the packed length
of what is in front, control byte of the cut run included.  The record in front of the last cut
therefore packs to a length that fits.
-/

namespace Firebird
namespace RecordStorage

open LineArea (rhdfSize)
open RunLength (Run)
open Compressor (Packs Cut Segmented controlByte image images)

/-- The packed length of runs and the literal bytes behind them. -/
def cost (left : List (Run UInt8)) (lit : List UInt8) : Nat :=
  (images left).length + if lit = [] then 0 else lit.length + 1

/-- The state of `store_big_record` behind some runs of the record and literal bytes of the next. -/
structure Reaches (runs left : List (Run UInt8)) (lit : List UInt8) (tail : Tail) : Prop where
  controls : tail.controls = (left.map controlByte).reverse
  count : if lit = [] then tail.count ≤ 0 else tail.count = lit.length
  used : tail.used = (RunLength.expand left ++ lit).length
  cut : Cut runs left lit

section Page

variable {runs left : List (Run UInt8)} {lit : List UInt8} {tail : Tail} {length : Nat}

theorem cost_nil (left : List (Run UInt8)) : cost left [] = (images left).length := by
  rw [cost, if_pos rfl, Nat.add_zero]

theorem cost_of_ne_nil (some_lit : lit ≠ []) :
    cost left lit = (images left).length + (lit.length + 1) := by
  rw [cost, if_neg some_lit]

theorem Reaches.take_used (reaches : Reaches runs left lit tail) :
    (RunLength.expand runs).take tail.used = RunLength.expand left ++ lit := by
  rw [reaches.used]
  exact (List.prefix_iff_eq_take.mp reaches.cut.starts).symm

theorem Reaches.lit_length (reaches : Reaches runs left lit tail)
    (within : ∀ run ∈ runs, run.Within 127 128) : lit.length ≤ 127 := by
  obtain ⟨right, rfl, rfl | ⟨more, rest, rfl⟩⟩ := reaches.cut
  · exact Nat.zero_le _
  · have bounds := within (.literal (lit ++ more)) (by simp)
    have small := bounds.2
    rw [List.length_append] at small
    omega

/-- Behind the literal bytes `kept` once the literal bytes behind them have been moved. -/
theorem Reaches.moved {kept moved : List UInt8} (reaches : Reaches runs left (kept ++ moved) tail)
    (some_moved : moved ≠ []) :
    Reaches runs left kept
      { tail with count := tail.count - moved.length, used := tail.used - moved.length } := by
  have count_eq := reaches.count
  rw [if_neg (by simp [some_moved]), List.length_append] at count_eq
  have used_eq := reaches.used
  simp only [List.length_append] at used_eq
  refine ⟨reaches.controls, ?_, ?_, ?_⟩
  · dsimp only
    split
    · rename_i none_kept
      rw [none_kept, List.length_nil] at count_eq
      omega
    · omega
  · dsimp only
    rw [List.length_append]
    omega
  · obtain ⟨right, runs_eq, nothing | ⟨more, rest, right_eq⟩⟩ := reaches.cut
    · simp [some_moved] at nothing
    · exact ⟨right, runs_eq, Or.inr ⟨moved ++ more, rest, by rw [right_eq, List.append_assoc]⟩⟩

/-- One turn with a residual count. -/
theorem fillPage_residual {kept moved : List UInt8}
    (reaches : Reaches runs left (kept ++ moved) tail) (some_moved : moved ≠ []) (room : 2 ≤ length)
    (moved_eq : moved.length = min (kept ++ moved).length (length - 1)) (out : List UInt8) :
    fillPage (RunLength.expand runs) tail length out =
      fillPage (RunLength.expand runs)
        { tail with count := tail.count - moved.length, used := tail.used - moved.length }
        (length - (moved.length + 1)) (image (.literal moved) ++ out) := by
  have count_eq := reaches.count
  rw [if_neg (by simp [some_moved])] at count_eq
  have used_eq := reaches.used
  simp only [List.length_append] at used_eq
  have l_eq : min tail.count.toNat (length - 1) = moved.length := by
    rw [count_eq, Int.toNat_natCast, moved_eq]
  have moved_bytes : ((RunLength.expand runs).take tail.used).drop (tail.used - moved.length) =
      moved := by
    rw [reaches.take_used, ← List.append_assoc]
    refine List.drop_left' ?_
    rw [List.length_append]
    omega
  have positive := List.length_pos_of_ne_nil some_moved
  rw [List.length_append] at count_eq
  rw [fillPage.eq_def, if_neg (by omega), if_pos (by omega)]
  dsimp only
  rw [l_eq, if_neg (by omega), moved_bytes]
  rfl

/-- One turn that reads the control byte of a literal run. -/
theorem fillPage_literal {elements : List UInt8} (within : ∀ run ∈ runs, run.Within 127 128)
    (reaches : Reaches runs (left ++ [.literal elements]) [] tail) (room : 2 ≤ length)
    (out : List UInt8) :
    ∃ after,
      fillPage (RunLength.expand runs) tail length out =
          fillPage (RunLength.expand runs) after length out ∧
        Reaches runs left elements after := by
  obtain ⟨right, runs_eq, -⟩ := reaches.cut
  have bounds : (Run.literal elements).Within 127 128 := within _ (by simp [runs_eq])
  obtain ⟨positive, small⟩ := bounds
  have value : signedChar (controlByte (.literal elements)) = elements.length :=
    signedChar_ofNat (by omega)
  have not_residual : tail.count ≤ 0 := by simpa using reaches.count
  have controls_eq := reaches.controls
  rw [List.map_append, List.reverse_append] at controls_eq
  refine ⟨{ controls := (left.map controlByte).reverse, count := elements.length,
            used := tail.used }, ?_, rfl, ?_, ?_, ?_⟩
  · rw [fillPage.eq_def, if_neg (by omega), if_neg (by omega)]
    obtain ⟨controls, count, used⟩ := tail
    dsimp only at controls_eq ⊢
    rw [controls_eq]
    simp only [List.map_cons, List.map_nil, List.reverse_singleton, List.cons_append,
      List.nil_append, value]
    rw [if_neg (by omega)]
  · rw [if_neg (List.ne_nil_of_length_pos positive)]
  · rw [reaches.used]
    simp [Run.expand]
  · refine ⟨.literal elements :: right, ?_, Or.inr ⟨[], right, by rw [List.append_nil]⟩⟩
    rw [runs_eq, List.append_assoc]
    rfl

/-- One turn that moves a repeated run. -/
theorem fillPage_repeated {repeats : Nat} {byte : UInt8}
    (within : ∀ run ∈ runs, run.Within 127 128)
    (reaches : Reaches runs (left ++ [.repeated repeats byte]) [] tail) (room : 2 ≤ length)
    (out : List UInt8) :
    ∃ after,
      fillPage (RunLength.expand runs) tail length out =
          fillPage (RunLength.expand runs) after (length - 2)
            (image (.repeated repeats byte) ++ out) ∧
        Reaches runs left [] after := by
  obtain ⟨right, runs_eq, -⟩ := reaches.cut
  have bounds : (Run.repeated repeats byte).Within 127 128 := within _ (by simp [runs_eq])
  obtain ⟨positive, small⟩ := bounds
  have value : signedChar (controlByte (.repeated repeats byte)) = -(repeats : Int) :=
    signedChar_neg positive small
  have not_residual : tail.count ≤ 0 := by simpa using reaches.count
  have controls_eq := reaches.controls
  rw [List.map_append, List.reverse_append] at controls_eq
  have used_eq := reaches.used
  rw [List.append_nil, RunLength.expand_append, RunLength.expand_cons, RunLength.expand_nil,
    List.append_nil, Run.expand, List.length_append, List.length_replicate] at used_eq
  have last_byte : (RunLength.expand runs).getD (tail.used - 1) 0 = byte := by
    have inside : tail.used - 1 - (RunLength.expand left).length < repeats := by omega
    rw [runs_eq, RunLength.expand_append, RunLength.expand_append, RunLength.expand_cons,
      RunLength.expand_nil, List.append_nil, Run.expand, List.append_assoc,
      List.getD_eq_getElem?_getD, List.getElem?_append_right (by omega),
      List.getElem?_append_left (by rw [List.length_replicate]; exact inside),
      List.getElem?_replicate, if_pos inside]
    rfl
  refine ⟨{ controls := (left.map controlByte).reverse, count := -(repeats : Int),
            used := tail.used - repeats }, ?_, rfl, ?_, ?_, ?_⟩
  · rw [fillPage.eq_def, if_neg (by omega), if_neg (by omega)]
    obtain ⟨controls, count, used⟩ := tail
    dsimp only at controls_eq used_eq last_byte ⊢
    rw [controls_eq]
    simp only [List.map_cons, List.map_nil, List.reverse_singleton, List.cons_append,
      List.nil_append, value]
    have back_eq : (- -(repeats : Int)).toNat = repeats := by omega
    rw [if_pos (by omega), back_eq, if_neg (by omega), last_byte]
    rfl
  · rw [if_pos rfl]
    dsimp only
    omega
  · dsimp only
    rw [List.append_nil]
    omega
  · refine ⟨.repeated repeats byte :: right, ?_, Or.inl rfl⟩
    rw [runs_eq, List.append_assoc]
    rfl

theorem images_singleton (run : Run UInt8) : images [run] = image run := by
  rw [Compressor.images_cons]
  exact List.append_nil _

/-- A page is filled from its end with images of runs.  At most one byte is left, and where the last
run is cut, its front part needs a control byte of its own. -/
theorem fillPage_spec (within : ∀ run ∈ runs, run.Within 127 128)
    (reaches : Reaches runs left lit tail) (enough : length ≤ cost left lit)
    (whole : lit ≠ [] → 2 ≤ length) (out : List UInt8) :
    ∃ after left' lit' rest piece,
      fillPage (RunLength.expand runs) tail length out = .ok (after, rest, images piece ++ out) ∧
        Reaches runs left' lit' after ∧ (rest = 0 ∨ rest = 1 ∧ lit' = []) ∧
        (∀ run ∈ piece, run.Within 127 128) ∧
        RunLength.expand left ++ lit = RunLength.expand left' ++ lit' ++ RunLength.expand piece ∧
        (images piece).length + rest = length ∧
        cost left' lit' + (images piece).length = cost left lit + if lit' = [] then 0 else 1 := by
  induction measure : left.length + length using Nat.strongRecOn
    generalizing left lit tail length out with
  | ind size ih =>
      subst measure
      by_cases room : 2 ≤ length
      · by_cases residual : lit = []
        · subst residual
          rw [cost_nil] at enough
          rcases List.eq_nil_or_concat left with rfl | ⟨left, run, rfl⟩
          · simp only [images, List.flatMap_nil, List.length_nil] at enough
            omega
          · rw [List.concat_eq_append] at reaches enough ih ⊢
            have bounds : run.Within 127 128 := by
              obtain ⟨right, runs_eq, -⟩ := reaches.cut
              exact within run (by simp [runs_eq])
            rw [Compressor.images_append, List.length_append, images_singleton] at enough
            cases run with
            | literal elements =>
                obtain ⟨after, turn, reached⟩ := fillPage_literal within reaches room out
                have some_elements := List.ne_nil_of_length_pos bounds.1
                obtain ⟨final, left', lit', rest, piece, result, found⟩ := ih
                  (left.length + length) (by simp) reached (by
                    rw [cost_of_ne_nil some_elements]
                    simp only [image, List.length_cons] at enough
                    omega) (fun _ => room) out rfl
                refine ⟨final, left', lit', rest, piece, turn.trans result, ?_⟩
                simpa [Run.expand, cost_nil, cost_of_ne_nil some_elements, image] using found
            | repeated repeats byte =>
                obtain ⟨after, turn, reached⟩ := fillPage_repeated within reaches room out
                obtain ⟨final, left', lit', rest, piece, result, reached, ending, piece_within,
                  data_eq, length_eq, cost_eq⟩ := ih (left.length + (length - 2)) (by simp; omega)
                    reached (by
                      rw [cost_nil]
                      simp only [image, List.length_cons, List.length_nil] at enough
                      omega) (fun some_lit => absurd rfl some_lit)
                      (image (.repeated repeats byte) ++ out) rfl
                refine ⟨final, left', lit', rest, piece ++ [.repeated repeats byte], ?_, reached,
                  ending, ?_, ?_, ?_, ?_⟩
                · rw [turn, result, Compressor.images_append, images_singleton, List.append_assoc]
                · exact List.forall_mem_append.mpr
                    ⟨piece_within, List.forall_mem_singleton.mpr bounds⟩
                · rw [List.append_nil] at data_eq ⊢
                  simp only [RunLength.expand_append, data_eq, List.append_assoc]
                · rw [Compressor.images_append, images_singleton, List.length_append]
                  simp only [image, List.length_cons, List.length_nil]
                  omega
                · rw [cost_nil] at cost_eq ⊢
                  rw [Compressor.images_append, Compressor.images_append, images_singleton,
                    List.length_append, List.length_append]
                  omega
        · have small := reaches.lit_length within
          have some_lit := List.length_pos_of_ne_nil residual
          by_cases fits : lit.length ≤ length - 1
          · have turn := @fillPage_residual runs left tail length [] lit reaches residual room
              (by simpa using fits) out
            have reached := @Reaches.moved runs left tail [] lit reaches residual
            rw [cost_of_ne_nil residual] at enough
            obtain ⟨final, left', lit', rest, piece, result, reached, ending, piece_within, data_eq,
              length_eq, cost_eq⟩ := ih (left.length + (length - (lit.length + 1))) (by omega)
                reached (by rw [cost_nil]; omega) (fun some_lit => absurd rfl some_lit)
                (image (.literal lit) ++ out) rfl
            refine ⟨final, left', lit', rest, piece ++ [.literal lit], ?_, reached, ending, ?_, ?_,
              ?_, ?_⟩
            · rw [turn, result, Compressor.images_append, images_singleton, List.append_assoc]
            · exact List.forall_mem_append.mpr
                ⟨piece_within, List.forall_mem_singleton.mpr ⟨some_lit, small⟩⟩
            · rw [List.append_nil] at data_eq
              simp only [RunLength.expand_append, data_eq, List.append_assoc, RunLength.expand_cons,
                RunLength.expand_nil, Run.expand, List.append_nil]
            · rw [Compressor.images_append, images_singleton, List.length_append]
              simp only [image, List.length_cons]
              omega
            · rw [cost_nil] at cost_eq
              rw [cost_of_ne_nil residual, Compressor.images_append, images_singleton,
                List.length_append]
              simp only [image, List.length_cons]
              omega
          · obtain ⟨kept, moved, rfl, moved_length⟩ : ∃ kept moved, lit = kept ++ moved ∧
                moved.length = length - 1 :=
              ⟨_, _, (List.take_append_drop (lit.length - (length - 1)) lit).symm, by
                rw [List.length_drop]
                omega⟩
            rw [List.length_append] at fits small
            have some_moved : moved ≠ [] := List.ne_nil_of_length_pos (by omega)
            have some_kept : kept ≠ [] := List.ne_nil_of_length_pos (by omega)
            have turn := fillPage_residual reaches some_moved room
              (by rw [List.length_append]; omega) out
            have nothing : length - (moved.length + 1) = 0 := by omega
            refine ⟨_, left, kept, 0, [.literal moved], ?_, reaches.moved some_moved, Or.inl rfl, ?_,
              ?_, ?_, ?_⟩
            · rw [turn, nothing, fillPage.eq_def, if_pos (by omega), images_singleton]
            · exact List.forall_mem_singleton.mpr ⟨by omega, by omega⟩
            · simp [Run.expand]
            · rw [images_singleton, image, List.length_cons]
              omega
            · rw [cost_of_ne_nil some_kept, cost_of_ne_nil residual, if_neg some_kept,
                images_singleton, image, List.length_cons, List.length_append]
              omega
      · have no_lit : lit = [] := by
          by_contra some_lit
          exact room (whole some_lit)
        refine ⟨tail, left, lit, length, [], ?_, reaches, ?_, List.forall_mem_nil _, ?_, ?_, ?_⟩
        · rw [fillPage.eq_def, if_pos (by omega)]
          rfl
        · have short : length = 0 ∨ length = 1 := by omega
          exact short.imp_right fun one => ⟨one, no_lit⟩
        · simp
        · simp [images]
        · simp [images, no_lit]

end Page

/-- The pages and the place are those of new lines: page 0 is no data page, and numbers fit in the
fields of a fragment pointer. -/
structure Space.Fresh (space : Space) (pages : Nat) : Prop where
  nonzero : ∀ index < pages, space.tails index ≠ 0
  small : ∀ index < pages, space.tails index < 2 ^ 32
  distinct : ∀ first < pages, ∀ second < pages, space.tails first = space.tails second →
    first = second
  elsewhere : ∀ index < pages, space.tails index ≠ space.place.1
  page : space.place.1 < 2 ^ 32
  line : space.place.2 < 2 ^ 16

/-- Where the fragment pointer to a page of the tail leads. -/
def tailPointer (prior : Nat) : Option (Nat × Nat) := if prior = 0 then none else some (prior, 0)

section Tails

variable {pageSize : PageSize} {space : Space} {pages : Nat} {runs : List (Run UInt8)}

/-- The loop over the pages of the tail: the size is what the front part costs, and the rest of the
record is in the chain. -/
structure Tailing (space : Space) (runs : List (Run UInt8)) (store : Store)
    (index prior size : Nat) (tail : Tail) : Prop where
  exists_front : ∃ left lit back,
    Reaches runs left lit tail ∧ size = cost left lit ∧
      RunLength.expand runs = RunLength.expand left ++ lit ++ back ∧
      Chained store (fun place => ∃ earlier < index, place = (space.tails earlier, 0))
        (tailPointer prior) back

theorem two_le_maxData (pageSize : PageSize) : 2 ≤ maxData pageSize := by
  have large := pageSize.large
  unfold maxData dataPageSize rhdfSize
  omega

/-- One page more. -/
theorem Tailing.page {store : Store} {index prior size : Nat} {tail : Tail}
    (tailing : Tailing space runs store index prior size tail) (fresh : space.Fresh pages)
    (more : index < pages) (within : ∀ run ∈ runs, run.Within 127 128)
    (prior_small : prior < 2 ^ 32) (large : maxData pageSize < size) :
    ∃ after length out,
      fillPage (RunLength.expand runs) tail (maxData pageSize) [] = .ok (after, length, out) ∧
        Tailing space runs
          (Function.update store (space.tails index, 0)
            (some (tailLine prior (if length ≠ 0 then 0 :: out else out))))
          (index + 1) (space.tails index)
          (size - maxData pageSize +
            if length ≠ 0 then 1 else if 0 < after.count then 1 else 0) after := by
  obtain ⟨left, lit, back, reaches, rfl, data_eq, chained⟩ := tailing.exists_front
  obtain ⟨after, left', lit', rest, piece, filled, reached, ending, piece_within, piece_eq,
    length_eq, cost_eq⟩ := fillPage_spec within reaches (Nat.le_of_lt large)
      (fun _ => two_le_maxData pageSize) []
  refine ⟨after, rest, images piece ++ [], filled, left', lit', RunLength.expand piece ++ back,
    reached, ?_, ?_, ?_⟩
  · have count_eq := reached.count
    rcases ending with rfl | ⟨rfl, rfl⟩
    · simp only [ne_eq, not_true_eq_false, if_false]
      split at cost_eq
      · rename_i no_lit
        rw [if_pos no_lit] at count_eq
        rw [if_neg (by omega)]
        omega
      · rename_i some_lit
        rw [if_neg some_lit] at count_eq
        have positive := List.length_pos_of_ne_nil some_lit
        rw [if_pos (by omega)]
        omega
    · rw [if_pos rfl] at cost_eq
      rw [if_pos (by decide)]
      omega
  · rw [data_eq, piece_eq, List.append_assoc]
  · have packs : Packs (if rest ≠ 0 then 0 :: (images piece ++ []) else images piece ++ [])
        (RunLength.expand piece) := by
      have bare : Packs (images piece) (RunLength.expand piece) :=
        ⟨0, 0, piece, by simp, rfl, piece_within⟩
      rw [List.append_nil]
      split
      · simpa using bare.zeros 1 0
      · exact bare
    have older : Chained (Function.update store (space.tails index, 0) (some (tailLine prior
          (if rest ≠ 0 then 0 :: (images piece ++ []) else images piece ++ []))))
        (fun place => ∃ earlier < index + 1, place = (space.tails earlier, 0))
        (tailPointer prior) back := by
      refine (chained.congr ?_).mono ?_
      · rintro place ⟨earlier, before, rfl⟩
        refine Function.update_of_ne ?_ _ _
        intro same
        have equal := fresh.distinct earlier (by omega) index more (congrArg Prod.fst same)
        omega
      · rintro place ⟨earlier, before, rfl⟩
        exact ⟨earlier, by omega, rfl⟩
    rw [tailPointer, if_neg (fresh.nonzero index more)]
    refine .fragment ⟨index, by omega, rfl⟩ (Function.update_self ..)
      (getHeader_tailLine prior_small _) ?_ ?_
    · split
      · simpa using packs.zeros 9 0
      · exact packs
    · rw [tailPointer] at older
      by_cases no_prior : prior = 0
      · rw [if_pos no_prior] at older ⊢
        exact older
      · rw [if_neg no_prior] at older ⊢
        exact older

/-- All pages of the tail. -/
theorem storeTails_spec (fresh : space.Fresh pages) (within : ∀ run ∈ runs, run.Within 127 128)
    {store : Store} {index prior size : Nat} {tail : Tail}
    (tailing : Tailing space runs store index prior size tail) (prior_small : prior < 2 ^ 32)
    (inside : index ≤ pages) (enough : size ≤ (pages - index) * (maxData pageSize - 1)) :
    ∃ after last remaining index' size',
      storeTails pageSize space.tails (RunLength.expand runs) store index prior size tail =
          .ok (after, last, remaining) ∧
        Tailing space runs after index' last size' remaining ∧ size' ≤ maxData pageSize ∧
        index' ≤ pages ∧ last < 2 ^ 32 ∧ (prior ≠ 0 ∨ maxData pageSize < size → last ≠ 0) ∧
        ∀ place, (¬∃ page < pages, place = (space.tails page, 0)) → after place = store place := by
  induction size using Nat.strongRecOn generalizing store index prior tail with
  | ind size ih =>
      rw [storeTails.eq_def]
      by_cases large : maxData pageSize < size
      · have more : index < pages := by
          by_contra none_left
          have empty : pages - index = 0 := by omega
          rw [empty, Nat.zero_mul] at enough
          omega
        obtain ⟨filled, length, out, fill_eq, tailing⟩ :=
          tailing.page fresh more within prior_small large
        have two := two_le_maxData pageSize
        have smaller : size - maxData pageSize +
            (if length ≠ 0 then 1 else if 0 < filled.count then 1 else 0) ≤
              size - (maxData pageSize - 1) := by
          split
          · omega
          · split <;> omega
        have pages_eq : pages - index = pages - (index + 1) + 1 := by omega
        rw [pages_eq, Nat.add_mul, Nat.one_mul] at enough
        obtain ⟨after, last, remaining, index', size', stored, tailing, fits, inside, last_small,
          some_last, same⟩ := ih _ (by omega) tailing (fresh.small index more) more (by omega)
        refine ⟨after, last, remaining, index', size', ?_, tailing, fits, inside, last_small, ?_, ?_⟩
        · rw [if_pos large, fill_eq]
          exact stored
        · exact fun _ => some_last (Or.inl (fresh.nonzero index more))
        · intro place elsewhere
          have other : place ≠ (space.tails index, 0) := fun equal => elsewhere ⟨index, more, equal⟩
          rw [same place elsewhere, Function.update_of_ne other]
      · refine ⟨store, prior, tail, index, size, ?_, tailing, by omega, inside, prior_small, ?_,
          fun _ _ => rfl⟩
        · rw [if_neg large]
        · rintro (some_prior | more)
          · exact some_prior
          · exact absurd more large

/-- The front part packs to the size that is left. -/
theorem Tailing.front {store : Store} {index prior size : Nat} {tail : Tail}
    (tailing : Tailing space runs store index prior size tail)
    (segmented : Segmented (RunLength.expand runs) runs) :
    ∃ compressor packed back,
      Compressor.new ((RunLength.expand runs).take tail.used) = some compressor ∧
        compressor.pack ((RunLength.expand runs).take tail.used) = .ok packed ∧
        compressor.getPackedLength = size ∧ packed.length = size ∧
        Packs packed ((RunLength.expand runs).take tail.used) ∧
        RunLength.expand runs = (RunLength.expand runs).take tail.used ++ back ∧
        Chained store (fun place => ∃ earlier < index, place = (space.tails earlier, 0))
          (tailPointer prior) back := by
  obtain ⟨left, lit, back, reaches, rfl, data_eq, chained⟩ := tailing.exists_front
  have constructed := (segmented.front reaches.cut).new_eq
  obtain ⟨packed, pack_eq, packed_length, packs⟩ := Compressor.packs_pack constructed
  have size_eq : (images (left ++ RunLength.literals 126 lit)).length = cost left lit := by
    rw [Compressor.images_append, List.length_append]
    by_cases no_lit : lit = []
    · rw [no_lit, cost_nil, RunLength.literals_nil]
      rfl
    · have small := reaches.lit_length segmented.within
      have whole : lit.take (126 + 1) = lit := List.take_of_length_le (by omega)
      have rest_nil : lit.drop (126 + 1) = [] := List.drop_eq_nil_of_le (by omega)
      rw [cost_of_ne_nil no_lit, RunLength.literals_of_ne_nil no_lit, whole, rest_nil,
        RunLength.literals_nil, images_singleton, image, List.length_cons]
  rw [Compressor.getPackedLength, size_eq] at packed_length
  rw [reaches.take_used]
  exact ⟨_, packed, back, constructed, pack_eq, size_eq, packed_length, packs, data_eq, chained⟩

end Tails

section Store

variable {pageSize : PageSize} {space : Space} {pages : Nat} {store : Store} {record : Record}

/-- `dpg_length` of a line. -/
def Line.length (line : Line) : Nat := rhdSize + line.rest.length

/-- There is room for the line on a data page without records. -/
def Line.FitsEmptyPage (pageSize : PageSize) (line : Line) : Prop :=
  ∀ (bytes : Nat → UInt8) (reserving : Bool) (image : List UInt8), image.length = line.length →
    (LineArea.findSpace pageSize.bytes ⟨[], bytes⟩ reserving image).isSome

theorem fitsEmptyPage_of_le {line : Line} (small : line.length ≤ pageSize.bytes - dataPageSize) :
    line.FitsEmptyPage pageSize := by
  intro bytes reserving image length_eq
  have large := pageSize.large
  have aligned := pageSize.aligned
  have fits : 28 + LineArea.roundup image.length ≤ pageSize.bytes := by
    rw [length_eq]
    unfold dataPageSize at small
    unfold LineArea.roundup
    omega
  have used : LineArea.highWater 0 + LineArea.occupied [] +
      (if reserving then LineArea.reserved bytes [] else 0) + (if LineArea.freeSlot [] = 0 then 4
        else 0) = 28 := by
    cases reserving <;> rfl
  unfold LineArea.findSpace
  dsimp only [List.length_nil]
  rw [used, if_neg (by omega)]
  rfl

/-- The lines that may be written when a record is stored. -/
def Space.Writes (space : Space) (pages : Nat) (place : Nat × Nat) : Prop :=
  place = space.place ∨ ∃ page < pages, place = (space.tails page, 0)

/-- What storing a record leaves. -/
structure Stored (pageSize : PageSize) (space : Space) (pages : Nat) (store after : Store)
    (bytes : List UInt8) : Prop where
  chained : Chained after (space.Writes pages) (some space.place) bytes
  head : ∃ head, after space.place = some head ∧ head.FitsEmptyPage pageSize
  same : ∀ place, ¬space.Writes pages place → after place = store place

theorem storeBigRecord_spec (fresh : space.Fresh pages) {compressor : Compressor}
    (constructed : Compressor.new record.data = some compressor)
    (large : maxData pageSize < compressor.getPackedLength)
    (enough : 2 * record.data.length ≤ pages * (maxData pageSize - 1)) :
    ∃ after, storeBigRecord pageSize space store record compressor = .ok after ∧
      Stored pageSize space pages store after record.data := by
  obtain ⟨runs, segmented⟩ := Compressor.exists_segmented record.data
  have data_eq := segmented.expand_eq
  obtain rfl := Option.some.inj (segmented.new_eq.symm.trans constructed)
  rw [← data_eq] at segmented
  have start : Tailing space runs store 0 0 (images runs).length
      { controls := (runs.map controlByte).reverse, count := 0, used := record.data.length } := by
    refine ⟨runs, [], [], ⟨rfl, ?_, ?_, ?_⟩, (cost_nil runs).symm, by simp, .last⟩
    · rw [if_pos rfl]
    · rw [List.append_nil, data_eq]
    · exact ⟨[], (List.append_nil _).symm, Or.inl rfl⟩
  have length_le := Compressor.length_images segmented.within
  have short := segmented.short
  rw [data_eq] at length_le short
  have size_enough : (images runs).length ≤ (pages - 0) * (maxData pageSize - 1) := by
    rw [Nat.sub_zero]
    dsimp only [Compressor.getPackedLength] at large
    omega
  obtain ⟨between, last, remaining, index, size, tails_eq, tailing, size_le, inside, last_small,
    some_last, same⟩ :=
      storeTails_spec fresh segmented.within start (by decide) (Nat.zero_le _) size_enough
  obtain ⟨front, packed, back, front_eq, pack_eq, front_length, packed_length, packs, split,
    chained⟩ := tailing.front segmented
  have last_ne := some_last (Or.inr large)
  rw [data_eq] at tails_eq front_eq pack_eq packs split
  have apart : ∀ page < pages, (space.tails page, 0) ≠ space.place :=
    fun page more equal => fresh.elsewhere page more (congrArg Prod.fst equal)
  refine ⟨Function.update between space.place (some (frontLine record
    { record.flags with large := true } space.stale (rhdfSize + size) (last, 0) packed)), ?_, ?_⟩
  · simp only [storeBigRecord, Compressor.getPackedLength] at tails_eq front_length ⊢
    rw [tails_eq]
    simp only [bind, Except.bind]
    rw [front_eq]
    dsimp only
    rw [pack_eq, front_length]
    rfl
  · refine ⟨?_, ⟨_, Function.update_self .., ?_⟩, ?_⟩
    · have header := @getHeader_frontLine record { record.flags with large := true } space.stale
        packed (rhdfSize + size) (last, 0) last_small (by decide : 0 < 2 ^ 16)
        (congrArg (rhdfSize + ·) packed_length)
      rw [split]
      refine .fragment (Or.inl rfl) (Function.update_self ..) header packs ?_
      dsimp only
      rw [tailPointer, if_neg last_ne] at chained
      refine (chained.congr ?_).mono ?_
      · rintro place ⟨earlier, before, rfl⟩
        exact Function.update_of_ne (apart earlier (by omega)) _ _
      · rintro place ⟨earlier, before, rfl⟩
        exact Or.inr ⟨earlier, by omega, rfl⟩
    · refine fitsEmptyPage_of_le ?_
      rw [Line.length, length_frontLine (last, 0) (congrArg (rhdfSize + ·) packed_length)]
      have large := pageSize.large
      unfold maxData dataPageSize rhdfSize at size_le
      unfold dataPageSize rhdSize
      omega
    · intro place elsewhere
      rw [Space.Writes, not_or] at elsewhere
      rw [Function.update_of_ne elsewhere.1, same place elsewhere.2]

/-- A record that is stored is in the chain that starts at its place. -/
theorem dpmStore_spec (fresh : space.Fresh pages)
    (enough : 2 * record.data.length ≤ pages * (maxData pageSize - 1)) (complete : record.flags.incomplete = false)
    (short : record.flags.longTranum = false) :
    ∃ after, dpmStore pageSize space store record = .ok after ∧
      Stored pageSize space pages store after record.data := by
  obtain ⟨runs, segmented⟩ := Compressor.exists_segmented record.data
  have constructed := segmented.new_eq
  obtain ⟨compressor, compressor_eq⟩ : ∃ compressor : Compressor,
      ⟨runs.map controlByte, (images runs).length⟩ = compressor := ⟨_, rfl⟩
  rw [compressor_eq] at constructed
  have header_small : headerSize record.transaction ≤ rhdfSize := by
    rcases headerSize_cases record.transaction with ⟨size_eq, -⟩ | ⟨size_eq, -⟩
    all_goals
      rw [size_eq]
      decide
  unfold dpmStore
  simp only [constructed]
  have large := pageSize.large
  split
  · rename_i big
    refine storeBigRecord_spec fresh constructed ?_ enough
    unfold dataPageSize at big
    unfold maxData dataPageSize
    omega
  · rename_i whole
    obtain ⟨packed, pack_eq, packed_length, packs⟩ := Compressor.packs_pack constructed
    refine ⟨Function.update store space.place (some (wholeLine record space.stale packed)), ?_, ?_,
      ⟨_, Function.update_self .., fitsEmptyPage_of_le ?_⟩, ?_⟩
    · rw [pack_eq]
      rfl
    · rw [← List.append_nil record.data]
      refine .fragment (Or.inl rfl) (Function.update_self ..) (getHeader_wholeLine complete short)
        ?_ .last
      simpa using packs.zeros 0 (rhdfSize - headerSize record.transaction - packed.length)
    · rw [Line.length, length_wholeLine short]
      rcases headerSize_cases record.transaction with ⟨size_eq, -⟩ | ⟨size_eq, -⟩
      all_goals
        rw [size_eq] at whole ⊢
        simp only [dataPageSize, rhdfSize, rhdSize, rhdeSize] at whole ⊢
        omega
    · intro place elsewhere
      exact Function.update_of_ne (fun equal => elsewhere (Or.inl equal)) _ _

end Store

section Update

open LineArea (highWater occupied roundup)

variable {pageSize : PageSize} {space : Space} {pages : Nat} {store : Store} {record : Record}
  {lines : List LineArea.Line} {place : Nat × Nat}

/-- The head length that `fragment` computes before it stores the tail is the one that it packs. -/
theorem fragment_spec (fresh : space.Fresh pages)
    (enough : 2 * record.data.length ≤ pages * (maxData pageSize - 1)) (other : ¬space.Writes pages place) {stale : Nat → UInt8}
    {available : Int} {oldLength own : Nat} {compressor : Compressor}
    (constructed : Compressor.new record.data = some compressor)
    (old_large : rhdfSize ≤ oldLength) (large : (oldLength : Int) ≤ available)
    (small : available < rhdfSize + compressor.getPackedLength) :
    ∃ after, fragment pageSize space stale store place available oldLength own record compressor =
          .ok after ∧
      Chained after (fun line => line = place ∨ space.Writes pages line) (some place) record.data ∧
      ∀ line, line ≠ place → ¬space.Writes pages line → after line = store line := by
  obtain ⟨runs, segmented⟩ := Compressor.exists_segmented record.data
  have data_eq := segmented.expand_eq
  obtain rfl := Option.some.inj (segmented.new_eq.symm.trans constructed)
  obtain ⟨given, given_eq⟩ : ∃ given : Int,
      (if record.transaction ≠ own ∨ record.flags.delta then (oldLength : Int) else available) =
        given := ⟨_, rfl⟩
  obtain ⟨limit, limit_eq⟩ : ∃ limit : Nat, given - rhdfSize = limit := by
    refine Int.eq_ofNat_of_zero_le ?_
    rw [← given_eq]
    split <;> omega
  obtain ⟨consumed, packed, packed_eq, packed_length, bound, front, trail, front_eq, expand_eq,
    front_within⟩ := @Compressor.packLimitedLoop_spec runs segmented.within limit (by
      dsimp only [Compressor.getPackedLength] at small
      split at given_eq <;> omega)
  rw [data_eq] at packed_eq bound expand_eq
  have packLimited_eq : Compressor.packLimited ⟨runs.map controlByte, (images runs).length⟩
      record.data limit = .ok (consumed, packed) := packed_eq
  have partial_eq := Compressor.getPartialLength_of_packLimited packLimited_eq
  obtain ⟨tail, tail_eq⟩ : ∃ tail : Record,
      { record with
        data := record.data.drop consumed, backPage := 0, backLine := 0,
        flags := { Flags.none with fragment := true } } = tail := ⟨_, rfl⟩
  have tail_data : tail.data = record.data.drop consumed := by rw [← tail_eq]
  obtain ⟨between, tail_stored, stored⟩ := @dpmStore_spec pageSize space pages store tail
    fresh (by rw [tail_data, List.length_drop]; omega) (by rw [← tail_eq]; rfl)
    (by rw [← tail_eq]; rfl)
  rw [tail_data] at stored
  have size_eq : rhdfSize + packed.length = given.toNat := by omega
  refine ⟨Function.update between place
    (some (frontLine record record.flags stale given.toNat space.place packed)), ?_, ?_, ?_⟩
  · unfold fragment
    dsimp only
    rw [given_eq, limit_eq, partial_eq]
    simp only [bind, Except.bind]
    rw [tail_eq, tail_stored, packLimited_eq]
    dsimp only
    rw [if_neg (not_not.mpr rfl)]
    rfl
  · have header := @getHeader_frontLine record record.flags stale packed given.toNat space.place
      fresh.page fresh.line size_eq
    have packs : Packs packed (record.data.take consumed) :=
      ⟨0, trail, front, front_eq, expand_eq, front_within⟩
    rw [← List.take_append_drop consumed record.data]
    refine .fragment (Or.inl rfl) (Function.update_self ..) header (by simpa using packs) ?_
    refine (stored.chained.congr ?_).mono fun _ => Or.inr
    intro line written
    refine Function.update_of_ne ?_ _ _
    rintro rfl
    exact other written
  · intro line different elsewhere
    rw [Function.update_of_ne different, stored.same line elsewhere]

/-- The records of a page fit on it, and the one at the line has at least the length of the header of
a fragmented record. -/
structure Replaceable (pageSize : PageSize) (lines : List LineArea.Line) (line : Nat) : Prop where
  fits : highWater lines.length + occupied lines ≤ pageSize.bytes
  padded : ∃ old, lines[line]? = some old ∧ old.offset ≠ 0 ∧ rhdfSize ≤ old.length

/-- On a page whose areas are in order this holds for every line, unless it has the unpadded record
that `DPM_chain` leaves. -/
theorem replaceable_of_layout {line : Nat} {old : LineArea.Line}
    (layout : LineArea.Layout pageSize.bytes lines) (found : lines[line]? = some old)
    (used : old.offset ≠ 0) (padded : old.stub = false) : Replaceable pageSize lines line := by
  have bound := layout.placed.occupied_le
  have index := layout.placed.index
  refine ⟨by omega, old, found, used, ?_⟩
  exact (layout.sized old (List.mem_of_getElem? found)).padded used padded

/-- A record that is updated is in the chain that starts at its line. -/
theorem dpmUpdate_spec (fresh : space.Fresh pages)
    (enough : 2 * record.data.length ≤ pages * (maxData pageSize - 1))
    (other : ¬space.Writes pages place) (replaceable : Replaceable pageSize lines place.2)
    (complete : record.flags.incomplete = false) (short : record.flags.longTranum = false)
    (stale : Nat → UInt8) (own : Nat) :
    ∃ after, dpmUpdate pageSize space stale store lines place own record = .ok after ∧
      Chained after (fun line => line = place ∨ space.Writes pages line) (some place) record.data ∧
      ∀ line, line ≠ place → ¬space.Writes pages line → after line = store line := by
  have fits := replaceable.fits
  obtain ⟨old, found, used, padded⟩ := replaceable.padded
  obtain ⟨runs, segmented⟩ := Compressor.exists_segmented record.data
  have constructed := segmented.new_eq
  obtain ⟨compressor, compressor_eq⟩ : ∃ compressor : Compressor,
      ⟨runs.map controlByte, (images runs).length⟩ = compressor := ⟨_, rfl⟩
  rw [compressor_eq] at constructed
  have old_eq : lines.getD place.2 .unused = old := by
    rw [List.getD_eq_getElem?_getD, found]
    rfl
  obtain ⟨available, available_eq⟩ : ∃ available : Int,
      (pageSize.bytes : Int) - highWater lines.length -
        occupied (lines.set place.2 { old with length := 0 }) = available := ⟨_, rfl⟩
  have given_back := LineArea.occupied_set { old with length := 0 } found used used
  simp only [LineArea.roundup_zero, Nat.add_zero] at given_back
  have rounded := LineArea.le_roundup old.length
  unfold dpmUpdate
  simp only [constructed, old_eq, available_eq]
  split
  · rename_i large
    refine fragment_spec fresh enough other constructed padded (by omega) ?_
    have old_room : 24 ≤ roundup old.length := LineArea.roundup_mono padded
    unfold roundup at large given_back old_room
    rcases headerSize_cases record.transaction with ⟨size_eq, -⟩ | ⟨size_eq, -⟩
    all_goals
      rw [size_eq] at large
      simp only [rhdfSize, rhdSize, rhdeSize] at large ⊢
      omega
  · obtain ⟨packed, pack_eq, packed_length, packs⟩ := Compressor.packs_pack constructed
    refine ⟨Function.update store place (some (wholeLine record stale packed)), ?_, ?_, ?_⟩
    · rw [pack_eq]
      rfl
    · rw [← List.append_nil record.data]
      refine .fragment (Or.inl rfl) (Function.update_self ..) (getHeader_wholeLine complete short)
        ?_ .last
      simpa using packs.zeros 0 (rhdfSize - headerSize record.transaction - packed.length)
    · intro line different _
      exact Function.update_of_ne different _ _

/-- The bytes are read from the head at the place and its fragments, whatever room there is for them,
and as the data of a record of their length. -/
def ReadsBack (store : Store) (place : Nat × Nat) (bytes : List UInt8) : Prop :=
  ∃ head enough, store place = some head ∧ ∀ rounds, enough ≤ rounds →
    data store rounds head bytes.length = .ok bytes ∧
      ∀ room, bytes.length ≤ room → fetchFragments store rounds (some place) room = .ok bytes

theorem Chained.readsBack {allowed : Nat × Nat → Prop} {bytes : List UInt8}
    (chained : Chained store allowed (some place) bytes) : ReadsBack store place bytes := by
  obtain ⟨head, there⟩ : ∃ head, store place = some head := by
    cases chained with
    | fragment inside there header packs later => exact ⟨_, there⟩
  obtain ⟨data_rounds, data_reads⟩ := chained.data there
  obtain ⟨fetch_rounds, fetch_reads⟩ := chained.fetchFragments
  refine ⟨head, max data_rounds fetch_rounds, there, fun rounds le => ⟨?_, fun room fits => ?_⟩⟩
  · exact data_reads rounds (Nat.le_trans (Nat.le_max_left _ _) le)
  · exact fetch_reads rounds room (Nat.le_trans (Nat.le_max_right _ _) le) fits

/-- A record that is stored or updated is read back, its head fits on an empty page, and both
computations of the length of the head agree. -/
theorem stored_readsBack (fresh : space.Fresh pages)
    (enough : 2 * record.data.length ≤ pages * (maxData pageSize - 1))
    (complete : record.flags.incomplete = false) (short : record.flags.longTranum = false) :
    (∃ after head, dpmStore pageSize space store record = .ok after ∧
        after space.place = some head ∧ head.FitsEmptyPage pageSize ∧
        ReadsBack after space.place record.data) ∧
      (∀ (lines : List LineArea.Line) (place : Nat × Nat) (stale : Nat → UInt8) (own : Nat),
        Replaceable pageSize lines place.2 → ¬space.Writes pages place →
          ∃ after, dpmUpdate pageSize space stale store lines place own record = .ok after ∧
            ReadsBack after place record.data) ∧
      ∀ (compressor : Compressor) (limit : Int) (consumed : Nat) (packed : List UInt8),
        Compressor.new record.data = some compressor →
          compressor.packLimited record.data limit = .ok (consumed, packed) →
            compressor.getPartialLength limit = .ok consumed := by
  refine ⟨?_, ?_, ?_⟩
  · obtain ⟨after, stored_eq, stored⟩ := dpmStore_spec fresh enough complete short
    obtain ⟨head, there, fits⟩ := stored.head
    exact ⟨after, head, stored_eq, there, fits, stored.chained.readsBack⟩
  · intro lines place stale own replaceable other
    obtain ⟨after, updated_eq, chained, -⟩ :=
      dpmUpdate_spec fresh enough other replaceable complete short stale own
    exact ⟨after, updated_eq, chained.readsBack⟩
  · intro compressor limit consumed packed _ packed_eq
    exact Compressor.getPartialLength_of_packLimited packed_eq

end Update

/-- The smallest pages, with space on page 150. -/
def smallest : PageSize := { bytes := 4096, aligned := rfl, large := by decide, small := by decide }

/-- Pages from 200 on for tails. -/
def sparse : Space := { tails := fun index => 200 + index, place := (150, 3), stale := fun _ => 0 }

/-- A record that takes more than one page, alternating between two bytes. -/
def alternating : Record :=
  { data := (List.range 9000).map fun index => UInt8.ofNat (index % 2), transaction := 2 ^ 32,
    backPage := 0, backLine := 0, flags := Flags.none, format := 1 }

theorem alternating_readsBack :
    (∃ after head, dpmStore smallest sparse (fun _ => none) alternating = .ok after ∧
        after (150, 3) = some head ∧ head.FitsEmptyPage smallest ∧
        ReadsBack after (150, 3) alternating.data) ∧
      ∃ after, dpmUpdate smallest sparse (fun _ => 0) (fun _ => none)
          [{ offset := 4072, length := 22, stub := false }] (151, 0) 7 alternating = .ok after ∧
        ReadsBack after (151, 0) alternating.data := by
  have fresh : sparse.Fresh 100 := by
    refine ⟨?_, ?_, ?_, ?_, by decide, by decide⟩
    · intro index _ zero
      simp only [sparse] at zero
      omega
    · intro index less
      simp only [sparse]
      omega
    · intro first _ second _ equal
      simp only [sparse] at equal
      omega
    · intro index _ equal
      simp only [sparse] at equal
      omega
  have enough : 2 * alternating.data.length ≤ 100 * (maxData smallest - 1) := by
    rw [alternating, List.length_map, List.length_range]
    decide
  obtain ⟨stored, updated, -⟩ := @stored_readsBack smallest sparse 100 (fun _ => none) alternating
    fresh enough rfl rfl
  refine ⟨stored, updated _ (151, 0) _ 7 ⟨by decide, _, rfl, by decide, by decide⟩ ?_⟩
  rintro (equal | ⟨page, -, equal⟩)
  · exact absurd equal (by decide)
  · have page_eq := congrArg Prod.fst equal
    simp only [sparse] at page_eq
    omega

end RecordStorage
end Firebird
