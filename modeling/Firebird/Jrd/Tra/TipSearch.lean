import Firebird.Jrd.Tra.TipCache

/-!
# Searching the transaction inventory cache

`findStates` scans the rest of one page after another.  Over a range whose pages are all cached it
finds the lowest transaction with a state in the mask.
-/

namespace Firebird
namespace TipCache

open TransactionState

variable {tipBytes : Nat}

/-- The outcome of a search is the lowest number in a range that has a sought property. -/
def FirstIn (sought : Nat → CachedState → Prop) (low high : Nat) :
    Option (Nat × CachedState) → Prop
  | none => ∀ number, low ≤ number → number < high → ∀ state, ¬ sought number state
  | some (number, state) =>
      low ≤ number ∧ number < high ∧ sought number state ∧
        ∀ earlier, low ≤ earlier → earlier < number → ∀ state, ¬ sought earlier state

namespace FirstIn

variable {sought : Nat → CachedState → Prop} {low middle high : Nat}
  {outcome : Option (Nat × CachedState)}

theorem extend (before : FirstIn sought low middle none) (rest : FirstIn sought middle high outcome)
    (split : low ≤ middle) : FirstIn sought low high outcome := by
  cases outcome with
  | none =>
      intro number above below state
      rcases Nat.lt_or_ge number middle with early | late
      · exact before number above early state
      · exact rest number late below state
  | some found =>
      obtain ⟨above, below, held, first⟩ := rest
      refine ⟨split.trans above, below, held, fun earlier reached under state => ?_⟩
      rcases Nat.lt_or_ge earlier middle with early | late
      · exact before earlier reached early state
      · exact first earlier late under state

theorem widen {found : Nat × CachedState} (narrow : FirstIn sought low middle (some found))
    (within : middle ≤ high) : FirstIn sought low high (some found) := by
  obtain ⟨above, below, held, first⟩ := narrow
  exact ⟨above, below.trans_le within, held, first⟩

theorem empty (reversed : high ≤ low) : FirstIn sought low high none :=
  fun _ above below => absurd (below.trans_le reversed) (Nat.not_lt.mpr above)

theorem congr {other : Nat → CachedState → Prop}
    (same : ∀ number, low ≤ number → number < high → ∀ state,
      sought number state ↔ other number state)
    (first : FirstIn sought low high outcome) : FirstIn other low high outcome := by
  cases outcome with
  | none =>
      intro number above below state held
      exact first number above below state ((same number above below state).mpr held)
  | some found =>
      obtain ⟨above, below, held, lowest⟩ := first
      refine ⟨above, below, (same _ above below _).mp held, fun earlier reached under state hit => ?_⟩
      exact lowest earlier reached under state
        ((same earlier reached (under.trans below) state).mpr hit)

end FirstIn

/-- The state the scan sees: a precommitted transaction only if those are sought. -/
def scanned (cache : TipCache tipBytes) (dbb_pc_transactions : Option (List Nat)) (mask : UInt32)
    (number : Nat) : Option CachedState :=
  if CachedState.precommitted.check mask && number != 0 &&
      precommited dbb_pc_transactions number then
    some .precommitted
  else
    (cache.stored number).map .onPage

/-- The state `findStates` goes by: what is older than the cache is taken for committed, and so is
the system transaction where committed ones are sought. -/
def taken (cache : TipCache tipBytes) (dbb_pc_transactions : Option (List Nat)) (mask : UInt32)
    (number : Nat) : Option CachedState :=
  match cache.m_cache with
  | [] => none
  | front :: _ =>
      if number < front.tpc_base ∨ number = 0 ∧ (CachedState.onPage committed).check mask then
        some (.onPage committed)
      else
        cache.scanned dbb_pc_transactions mask number

/-- The transaction is seen in a state of the mask. -/
def Seen (seen : Nat → Option CachedState) (mask : UInt32) (number : Nat) (state : CachedState) :
    Prop :=
  seen number = some state ∧ state.check mask = true

theorem page_span {cache : TipCache tipBytes} {page : TxPage} (mem : page ∈ cache.m_cache)
    {number : Nat} (above : page.tpc_base ≤ number) (below : number < page.tpc_base + 4 * tipBytes) :
    baseOf tipBytes number = page.tpc_base := by
  obtain ⟨sequence, base_eq⟩ := cache.aligned page mem
  have quotient : number / (4 * tipBytes) = sequence := by
    refine Nat.div_eq_of_lt_le ?_ ?_
    · rw [Nat.mul_comm, ← base_eq]
      exact above
    · rw [Nat.succ_mul, Nat.mul_comm sequence, ← base_eq]
      exact below
  rw [baseOf_eq, quotient, base_eq, Nat.mul_comm]

theorem baseOf_le_of_span {cache : TipCache tipBytes} {page : TxPage} (mem : page ∈ cache.m_cache)
    {number : Nat} (below : number < page.tpc_base + 4 * tipBytes) :
    baseOf tipBytes number ≤ page.tpc_base := by
  obtain ⟨sequence, base_eq⟩ := cache.aligned page mem
  have quotient : number / (4 * tipBytes) < sequence + 1 := by
    refine Nat.div_lt_of_lt_mul ?_
    rw [Nat.mul_succ, ← base_eq]
    exact below
  rw [baseOf_eq, base_eq, Nat.mul_comm]
  exact Nat.mul_le_mul_left _ (by omega)

theorem stored_of_mem {cache : TipCache tipBytes} {page : TxPage} (mem : page ∈ cache.m_cache)
    {number : Nat} (above : page.tpc_base ≤ number) (below : number < page.tpc_base + 4 * tipBytes) :
    cache.stored number = some (traState page.tpc_transactions page.tpc_base number) := by
  have found : cache.find (baseOf tipBytes number) = some page :=
    (SortedArray.find_eq_some_iff cache.ordered).mpr ⟨mem, (page_span mem above below).symm⟩
  rw [stored, found, Option.map_some]

theorem page_of_stored (positive : 0 < tipBytes) {cache : TipCache tipBytes} {number : Nat}
    (cached : (cache.stored number).isSome) :
    ∃ page ∈ cache.m_cache, page.tpc_base ≤ number ∧ number < page.tpc_base + 4 * tipBytes ∧
      page.tpc_base = baseOf tipBytes number := by
  rw [stored, Option.isSome_map, Option.isSome_iff_exists] at cached
  obtain ⟨page, found⟩ := cached
  obtain ⟨mem, base_eq⟩ := mem_of_find found
  have := Nat.mod_lt number (by omega : 0 < 4 * tipBytes)
  have below : baseOf tipBytes number ≤ number := baseOf_le number
  refine ⟨page, mem, base_eq.trans_le below, ?_, base_eq⟩
  rw [base_eq, baseOf] at *
  omega

variable {cache : TipCache tipBytes} {dbb_pc_transactions : Option (List Nat)} {mask : UInt32}

/-- The inner loop of `findStates`. -/
theorem scanPage_spec {page : TxPage} (mem : page ∈ cache.m_cache) (count number : Nat)
    (above : page.tpc_base ≤ number)
    (below : count ≠ 0 → number + count ≤ page.tpc_base + 4 * tipBytes) :
    ∃ outcome,
      scanPage dbb_pc_transactions
          (CachedState.precommitted.check mask && dbb_pc_transactions.isSome) mask page count
          number = .ok outcome ∧
        FirstIn (Seen (cache.scanned dbb_pc_transactions mask) mask) number (number + count)
          outcome := by
  induction count generalizing number with
  | zero => exact ⟨none, rfl, FirstIn.empty (Nat.le_of_eq rfl)⟩
  | succ count ih =>
      have fits := below (Nat.succ_ne_zero count)
      have on_page := stored_of_mem mem above (by omega)
      have listed : (CachedState.precommitted.check mask && dbb_pc_transactions.isSome &&
          number != 0 && precommited dbb_pc_transactions number) =
            (CachedState.precommitted.check mask && number != 0 &&
              precommited dbb_pc_transactions number) := by
        cases dbb_pc_transactions <;> simp [precommited]
      rw [scanPage, listed]
      by_cases is_listed : (CachedState.precommitted.check mask && number != 0 &&
          precommited dbb_pc_transactions number) = true
      · refine ⟨_, if_pos is_listed, Nat.le_refl _, by omega, ⟨if_pos is_listed, ?_⟩,
          fun earlier reached under => absurd under (Nat.not_lt.mpr reached)⟩
        simp only [Bool.and_eq_true] at is_listed
        exact is_listed.1.1
      · have seen : cache.scanned dbb_pc_transactions mask number =
            some (.onPage (traState page.tpc_transactions page.tpc_base number)) := by
          rw [scanned, if_neg is_listed, on_page, Option.map_some]
        rw [if_neg is_listed, if_neg (Nat.not_lt.mpr above)]
        simp only
        split
        · rename_i wanted
          exact ⟨_, rfl, Nat.le_refl _, by omega, ⟨seen, wanted⟩,
            fun earlier reached under => absurd under (Nat.not_lt.mpr reached)⟩
        · rename_i unwanted
          obtain ⟨outcome, result, first⟩ := ih (number + 1) (by omega) (fun _ => by omega)
          refine ⟨outcome, result, ?_⟩
          rw [show number + (count + 1) = number + 1 + count by omega]
          refine FirstIn.extend (fun other reached under state => ?_) first (Nat.le_succ number)
          have same : other = number := by omega
          rintro ⟨held, hit⟩
          rw [same, seen] at held
          rw [← Option.some.inj held] at hit
          exact unwanted hit

/-- The outer loop of `findStates`, over pages that hold the whole range. -/
theorem scanPages_spec (positive : 0 < tipBytes) {maxNumber : Nat} (pages : List TxPage)
    (number : Nat) (listed : ∀ page ∈ pages, page ∈ cache.m_cache)
    (sorted : SortedArray.Sorted TxPage.tpc_base pages)
    (reached : number < maxNumber →
      ∀ page ∈ cache.m_cache, number < page.tpc_base + 4 * tipBytes → page ∈ pages)
    (covered : ∀ other, number ≤ other → other < maxNumber → (cache.stored other).isSome) :
    ∃ outcome,
      scanPages tipBytes dbb_pc_transactions
          (CachedState.precommitted.check mask && dbb_pc_transactions.isSome) mask maxNumber pages
          number = .ok outcome ∧
        FirstIn (Seen (cache.scanned dbb_pc_transactions mask) mask) number maxNumber outcome := by
  induction pages generalizing number with
  | nil =>
      refine ⟨none, rfl, fun other above below => ?_⟩
      obtain ⟨page, mem, -, span, -⟩ := page_of_stored positive (covered other above below)
      have := reached (by omega) page mem (by omega)
      cases this
  | cons page later ih =>
      rw [scanPages]
      by_cases finished : maxNumber ≤ number
      · exact ⟨none, if_pos finished, FirstIn.empty finished⟩
      rw [if_neg finished]
      have mem := listed page List.mem_cons_self
      rw [SortedArray.Sorted, List.pairwise_cons] at sorted
      -- The page with `number` on it is this one or a later one.
      have begun : page.tpc_base ≤ number := by
        obtain ⟨holder, holder_mem, low, span, -⟩ :=
          page_of_stored positive (covered number (Nat.le_refl _) (by omega))
        rcases List.mem_cons.mp (reached (by omega) holder holder_mem span) with rfl | behind
        · exact low
        · exact ((sorted.1 holder behind).le).trans low
      generalize stop_eq : min (page.tpc_base + 4 * tipBytes) maxNumber = stop
      have advance : number + (stop - number) = max number stop := by omega
      obtain ⟨outcome, result, first⟩ := @scanPage_spec tipBytes cache dbb_pc_transactions mask page
        mem (stop - number) number begun (by omega)
      rw [advance] at first
      simp only [result]
      cases outcome with
      | some found => exact ⟨some found, rfl, first.widen (by omega)⟩
      | none =>
          obtain ⟨outcome, rest, last⟩ := ih (max number stop)
            (fun other other_mem => listed other (List.mem_cons_of_mem _ other_mem)) sorted.2
            (fun unfinished other other_mem span => by
              rcases List.mem_cons.mp (reached (by omega) other other_mem (by omega)) with
                rfl | behind
              · exact absurd unfinished (by omega)
              · exact behind)
            (fun other above => covered other (by omega))
          exact ⟨outcome, rest, first.extend last (by omega)⟩

theorem taken_of_before {front : TxPage} {later : List TxPage}
    (filled : cache.m_cache = front :: later) {number : Nat} (before : number < front.tpc_base) :
    cache.taken dbb_pc_transactions mask number = some (.onPage committed) := by
  rw [taken, filled]
  exact if_pos (.inl before)

theorem taken_of_scanned {front : TxPage} {later : List TxPage}
    (filled : cache.m_cache = front :: later) {number : Nat} (behind : front.tpc_base ≤ number)
    (ordinary : number = 0 → (CachedState.onPage committed).check mask = false) :
    cache.taken dbb_pc_transactions mask number =
      cache.scanned dbb_pc_transactions mask number := by
  rw [taken, filled]
  refine if_neg ?_
  rintro (before | ⟨is_zero, wanted⟩)
  · exact Nat.not_lt.mpr behind before
  · rw [ordinary is_zero] at wanted
    cases wanted

/-- Before the first cached page nothing is found when committed transactions are not sought. -/
theorem none_before {front : TxPage} {later : List TxPage}
    (filled : cache.m_cache = front :: later)
    (unwanted : (CachedState.onPage committed).check mask = false) (low : Nat) {high : Nat}
    (within : high ≤ front.tpc_base) :
    FirstIn (Seen (cache.taken dbb_pc_transactions mask) mask) low high none := by
  rintro number - below state ⟨held, hit⟩
  rw [taken_of_before filled (by omega)] at held
  rw [← Option.some.inj held, unwanted] at hit
  cases hit

/-- No transaction is precommitted, and no other state is sought. -/
theorem none_precommitted (cache : TipCache tipBytes) (low high : Nat) :
    FirstIn (Seen (cache.scanned none CachedState.precommitted.bit) CachedState.precommitted.bit)
      low high none := by
  rintro number - - state ⟨held, hit⟩
  rw [scanned, precommited, Bool.and_false, if_neg (by decide), Option.map_eq_some_iff] at held
  obtain ⟨tx_state, -, rfl⟩ := held
  rw [CachedState.check_precommitted_only] at hit
  cases hit

/-- `findStates` on a filled cache whose pages hold the whole range. -/
theorem search_spec (positive : 0 < tipBytes) {front : TxPage} {later : List TxPage}
    (filled : cache.m_cache = front :: later) {minNumber maxNumber : Nat} (room : 0 < maxNumber)
    (recent : (CachedState.onPage committed).check mask = true → front.tpc_base ≤ maxNumber)
    (covered : ∀ number, minNumber ≤ number → front.tpc_base ≤ number → number < maxNumber →
      (cache.stored number).isSome) :
    ∃ outcome,
      cache.search dbb_pc_transactions minNumber maxNumber mask = .ok outcome ∧
        FirstIn (Seen (cache.taken dbb_pc_transactions mask) mask) minNumber maxNumber outcome := by
  rw [search, filled]
  simp only
  by_cases old : maxNumber < front.tpc_base
  · have unwanted : (CachedState.onPage committed).check mask = false := by
      refine Bool.eq_false_iff.mpr fun wanted => ?_
      have := recent wanted
      omega
    exact ⟨none, if_pos old, none_before filled unwanted _ old.le⟩
  rw [if_neg old]
  by_cases early : (minNumber < front.tpc_base ∨ minNumber = 0) ∧
      (CachedState.onPage committed).check mask = true
  · refine ⟨_, if_pos early, Nat.le_refl _, by omega, ⟨?_, early.2⟩,
      fun earlier reached under => absurd under (Nat.not_lt.mpr reached)⟩
    rw [taken, filled]
    exact if_pos (early.1.imp_right fun is_zero => ⟨is_zero, early.2⟩)
  rw [if_neg early]
  generalize start_eq :
    (if minNumber < front.tpc_base ∨ minNumber = 0 then front.tpc_base else minNumber) = start
  have start_le : front.tpc_base ≤ start ∧ minNumber ≤ start := by
    split at start_eq <;> omega
  have before : FirstIn (Seen (cache.taken dbb_pc_transactions mask) mask) minNumber start none := by
    split at start_eq
    · rename_i moved
      refine none_before filled ?_ _ start_eq.ge
      exact Bool.eq_false_iff.mpr fun wanted => early ⟨moved, wanted⟩
    · exact FirstIn.empty start_eq.ge
  have scanned_iff : ∀ number, start ≤ number → number < maxNumber → ∀ state,
      Seen (cache.scanned dbb_pc_transactions mask) mask number state ↔
        Seen (cache.taken dbb_pc_transactions mask) mask number state := by
    intro number above _ state
    rw [Seen, Seen, taken_of_scanned filled (start_le.1.trans above) fun is_zero => ?_]
    exact Bool.eq_false_iff.mpr fun wanted => early ⟨.inr (by omega), wanted⟩
  by_cases nothing : (CachedState.precommitted.check mask && dbb_pc_transactions.isNone &&
      mask == CachedState.precommitted.bit) = true
  · rw [if_pos nothing]
    simp only [Bool.and_eq_true, Option.isNone_iff_eq_none, beq_iff_eq] at nothing
    obtain ⟨⟨-, rfl⟩, rfl⟩ := nothing
    exact ⟨none, rfl, before.extend ((none_precommitted cache start maxNumber).congr scanned_iff)
      start_le.2⟩
  rw [if_neg nothing]
  cases found : cache.find (baseOf tipBytes start) with
  | none =>
      refine ⟨none, rfl, before.extend (FirstIn.empty ?_) start_le.2⟩
      by_contra unfinished
      have held := covered start start_le.2 start_le.1 (by omega)
      rw [stored, found] at held
      cases held
  | some page =>
      obtain ⟨outcome, result, first⟩ := @scanPages_spec tipBytes cache dbb_pc_transactions mask
        positive maxNumber
        (SortedArray.seek TxPage.tpc_base (baseOf tipBytes start) cache.m_cache) start
        (fun other mem => ((SortedArray.mem_seek cache.ordered).mp mem).1)
        (cache.ordered.suffix (SortedArray.seek_suffix _ _))
        (fun _ other mem span =>
          (SortedArray.mem_seek cache.ordered).mpr ⟨mem, baseOf_le_of_span mem span⟩)
        (fun other above => covered other (start_le.2.trans above) (start_le.1.trans above))
      rw [filled] at result
      exact ⟨outcome, result, before.extend (first.congr scanned_iff) start_le.2⟩

end TipCache
end Firebird
