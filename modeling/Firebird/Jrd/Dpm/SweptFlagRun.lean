import Firebird.Jrd.Dpm.SweptFlag

/-!
# Swept pages through every sequence of operations

A routine keeps the meaning of the flag when it releases a flagged page only with clean lines and
goes into `mark_full` whenever it has cleared the flag.  Three routines do not look at the flag: the
ones that place the front part of a big record or a blob, and the first part of `fragment`.
-/

namespace Firebird
namespace SweptFlag

/-- A primary record version without a back version, by a transaction at or below the mark. -/
structure Header.Clean (mark : Nat) (header : Header) : Prop where
  transaction : header.transaction ≤ mark
  blob : header.flags.blob = false
  chain : header.flags.chain = false
  fragment : header.flags.fragment = false
  backPage : header.backPage = 0

/-- Every line in use is clean. -/
def DataPage.Clean (mark : Nat) (page : DataPage) : Prop :=
  ∀ header, some header ∈ page.lines → header.Clean mark

/-- The flag of a page says that the page is clean, and the bit on its pointer page follows the flag
once no `mark_full` is under way. -/
structure Relation.Sound (relation : Relation) : Prop where
  clean : ∀ number, (relation.pages number).swept = true →
    (relation.pages number).Clean (relation.markedAt number)
  bit : ∀ number, (relation.bits number).swept = true → number ∉ relation.markFull →
    (relation.pages number).swept = true

/-- The page on which an event stores or replaces a record. -/
def Event.stores : Event → Option Nat
  | .store number _ _ _ | .storeBigRecord number _ _ _ | .storeBlob number _ _
  | .update number _ _ | .fragmentHead number _ _ _ | .fragmentTail number _ _ _
  | .chain number _ _ _ => some number
  | _ => none

/-- What the callers keep to: a record that is replaced is there. -/
def Legal (relation : Relation) : Event → Prop
  | .update number line _ | .fragmentHead number line _ _ | .fragmentTail number line _ _
  | .chain number line _ _ => (relation.pages number).header? line ≠ none
  | _ => True

/-- The routines that do not look at the flag find it clear. -/
def Careful (relation : Relation) : Event → Prop
  | .storeBigRecord number _ _ _ | .storeBlob number _ _ | .fragmentHead number _ _ _ =>
      (relation.pages number).swept = false
  | _ => True

/-- A condition that every event of a sequence meets in the relation it happens in. -/
def Throughout (condition : Relation → Event → Prop) : Relation → List Event → Prop
  | _, [] => True
  | relation, event :: events =>
      condition relation event ∧ Throughout condition (relation.step event) events

/-- Flagged pages are clean before and after every event, and an event that stores or replaces a
record leaves its page without the flag. -/
def Upheld : Relation → List Event → Prop
  | relation, [] => relation.Sound
  | relation, event :: events =>
      relation.Sound ∧
        (∀ number, event.stores = some number →
          ((relation.step event).pages number).swept = false) ∧
        Upheld (relation.step event) events

/-- Flagged pages stay clean through every sequence of page operations and sweeps. -/
def SweptPagesClean : Prop :=
  ∀ (relation : Relation) (events : List Event),
    relation.Sound → Throughout Legal relation events → Upheld relation events

/-- A page released by a routine that keeps the meaning of the flag. -/
structure Released.Safe (mark : Nat) (page : DataPage) (released : Released) : Prop where
  clean : released.page.swept = true → released.page.Clean mark
  follows : page.swept = true → released.page.swept = true ∨ released.markFull = true

section Routines

variable {mark : Nat} {page : DataPage} {line slot own number : Nat} {header : Header}

theorem Header.sweepable_iff {oldest : Nat} :
    header.sweepable oldest = true ↔ header.Clean oldest := by
  constructor
  · intro sweepable
    simp only [Header.sweepable, Bool.not_eq_true', Bool.or_eq_false_iff, decide_eq_false_iff_not,
      Nat.not_lt, ne_eq, not_not] at sweepable
    obtain ⟨⟨transaction, ⟨blob, chain⟩, fragment⟩, back⟩ := sweepable
    exact ⟨transaction, blob, chain, fragment, back⟩
  · rintro ⟨transaction, blob, chain, fragment, back⟩
    simp [Header.sweepable, blob, chain, fragment, back, transaction]

theorem DataPage.sweepable_iff {oldest : Nat} :
    page.sweepable oldest = true ↔ page.Clean oldest := by
  constructor
  · intro sweepable header mem
    have passed := List.all_eq_true.mp sweepable _ mem
    exact Header.sweepable_iff.mp (by simpa using passed)
  · intro clean
    refine List.all_eq_true.mpr fun line mem => ?_
    cases line with
    | none => rfl
    | some header => simpa using Header.sweepable_iff.mpr (clean header mem)

theorem DataPage.header?_mem (found : page.header? line = some header) :
    some header ∈ page.lines := by
  rw [DataPage.header?, List.getD_eq_getElem?_getD] at found
  cases at_line : page.lines[line]? with
  | none => simp [at_line] at found
  | some held =>
      simp only [at_line, Option.getD_some] at found
      subst found
      exact List.mem_of_getElem? at_line

/-- Changing a line for a clean header keeps a page clean. -/
theorem DataPage.Clean.setHeader (clean : page.Clean mark) (header_clean : header.Clean mark) :
    (page.setHeader line header).Clean mark := by
  intro other mem
  rcases List.mem_or_eq_of_mem_set mem with mem | equal
  · exact clean other mem
  · rw [Option.some.inj equal]
    exact header_clean

theorem DataPage.mem_of_mem_dropUnused {lines : List (Option Header)} {entry : Option Header}
    (mem : entry ∈ DataPage.dropUnused lines) : entry ∈ lines := by
  rw [DataPage.dropUnused, List.mem_reverse] at mem
  exact List.mem_reverse.mp ((List.dropWhile_sublist _).mem mem)

/-- Emptying a line and dropping the unused ones keeps a page clean. -/
theorem DataPage.Clean.remove (clean : page.Clean mark) :
    ({ page with lines := DataPage.dropUnused (page.lines.set line none) } : DataPage).Clean
      mark := by
  intro other mem
  rcases List.mem_or_eq_of_mem_set (DataPage.mem_of_mem_dropUnused mem) with mem | equal
  · exact clean other mem
  · cases equal

/-- The writers that look at the flag leave it clear. -/
theorem releaseCleared_swept (page : DataPage) : (releaseCleared page).page.swept = false := by
  unfold releaseCleared
  split
  · rfl
  · simp_all

theorem releaseCleared_safe {changed : DataPage} (same : changed.swept = page.swept) :
    (releaseCleared changed).Safe mark page := by
  refine ⟨fun swept => ?_, fun swept => .inr ?_⟩
  · rw [releaseCleared_swept] at swept
    cases swept
  · rw [← same] at swept
    simp [releaseCleared, swept]

/-- A routine that leaves the flag alone and keeps clean lines clean. -/
theorem Released.Safe.of_clean {released : Released} (same : released.page.swept = page.swept)
    (clean : page.swept = true → page.Clean mark)
    (kept : page.Clean mark → released.page.Clean mark) : released.Safe mark page := by
  refine ⟨fun swept => kept (clean ?_), fun swept => .inl ?_⟩
  · rwa [← same]
  · rwa [same]

theorem Released.Safe.of_unswept {released : Released} (unswept : page.swept = false)
    (same : released.page.swept = page.swept) : released.Safe mark page := by
  refine ⟨fun swept => ?_, fun swept => ?_⟩
  · rw [same, unswept] at swept
    cases swept
  · rw [unswept] at swept
    cases swept

theorem storeBigRecord_swept (page : DataPage) (line : Nat) (primary : Bool) (header : Header) :
    (storeBigRecord page line primary header).page.swept = page.swept := by
  simp only [storeBigRecord]
  split <;> rfl

theorem storeBlob_swept (page : DataPage) (line level : Nat) :
    (storeBlob page line level).page.swept = page.swept := by
  simp only [storeBlob]
  split <;> rfl

theorem fragmentHead_swept (page : DataPage) (line own : Nat) (record : Header) :
    (fragmentHead page line own record).page.swept = page.swept := by
  unfold fragmentHead
  split <;> rfl

theorem fragmentTail_safe (clean : page.swept = true → page.Clean mark) (record : Header) :
    (fragmentTail page line own record).Safe mark page := by
  unfold fragmentTail
  split
  · exact .of_clean rfl clean id
  · exact releaseCleared_safe rfl

theorem chain_safe (clean : page.swept = true → page.Clean mark) (record : Header) :
    (chain number page line slot record).Safe mark page := by
  unfold chain
  split
  · exact .of_clean rfl clean id
  · exact releaseCleared_safe rfl

theorem backout_safe (clean : page.swept = true → page.Clean mark) :
    (backout page line).Safe mark page := by
  unfold backout
  split
  · exact .of_clean rfl clean id
  · split
    · exact .of_clean rfl clean id
    · rename_i back found
      refine .of_clean rfl clean fun clean => ?_
      have back_clean := clean back (DataPage.header?_mem found)
      have old_clean : Header.Clean mark
          { back with flags := { back.flags with chain := false, gcActive := false } } :=
        ⟨back_clean.transaction, back_clean.blob, rfl, back_clean.fragment, back_clean.backPage⟩
      have kept : (page.setHeader line _).Clean mark := clean.setHeader old_clean
      exact kept.remove

theorem backoutMark_safe (clean : page.swept = true → page.Clean mark) :
    (backoutMark page line).Safe mark page := by
  unfold backoutMark
  split
  · exact .of_clean rfl clean id
  · rename_i header found
    refine .of_clean rfl clean fun clean => ?_
    have header_clean := clean header (DataPage.header?_mem found)
    exact clean.setHeader ⟨header_clean.transaction, header_clean.blob, header_clean.chain,
      header_clean.fragment, header_clean.backPage⟩

theorem rewriteHeader_safe (clean : page.swept = true → page.Clean mark) :
    (rewriteHeader page line).Safe mark page := by
  unfold rewriteHeader
  split
  · exact .of_clean rfl clean id
  · rename_i header found
    refine .of_clean rfl clean fun clean => ?_
    have header_clean := clean header (DataPage.header?_mem found)
    exact clean.setHeader ⟨header_clean.transaction, header_clean.blob, header_clean.chain,
      header_clean.fragment, rfl⟩

end Routines

section Steps

variable {relation : Relation} {number : Nat}

/-- A safe release of one page keeps the flags of all pages true to their meaning. -/
theorem Relation.Sound.release (sound : relation.Sound) {released : Released}
    (safe : released.Safe (relation.markedAt number) (relation.pages number)) :
    (relation.release number released).Sound := by
  refine ⟨fun other swept => ?_, fun other bit pending => ?_⟩
  · by_cases same : other = number
    · subst same
      simp only [Relation.release, Function.update_self] at swept ⊢
      exact safe.clean swept
    · simp only [Relation.release, Function.update_of_ne same] at swept ⊢
      exact sound.clean other swept
  · have not_pending : other ∉ relation.markFull := by
      intro mem
      refine pending ?_
      simp only [Relation.release]
      split
      · exact List.mem_cons_of_mem _ mem
      · exact mem
    have swept := sound.bit other bit not_pending
    by_cases same : other = number
    · subst same
      simp only [Relation.release, Function.update_self]
      rcases safe.follows swept with kept | follows
      · exact kept
      · exact absurd (by simp [Relation.release, follows]) pending
    · simpa [Relation.release, Function.update_of_ne same] using swept

theorem Relation.Sound.checkSwept (sound : relation.Sound) (oldest : Nat) :
    (relation.checkSwept number oldest).Sound := by
  simp only [Relation.checkSwept]
  split
  · exact sound
  · split
    · rename_i sweepable
      refine ⟨fun other swept => ?_, fun other bit pending => ?_⟩
      · by_cases same : other = number
        · subst same
          simp only [Relation.release, Function.update_self]
          exact DataPage.sweepable_iff.mp sweepable
        · simp only [Relation.release, Function.update_of_ne same] at swept ⊢
          exact sound.clean other swept
      · simp only [Relation.release, if_true, List.mem_cons, not_or] at pending
        simpa [Relation.release, Function.update_of_ne pending.1] using
          sound.bit other bit pending.2
    · exact sound

theorem Relation.Sound.copyFlags (sound : relation.Sound) : (relation.copyFlags number).Sound := by
  refine ⟨sound.clean, fun other bit pending => ?_⟩
  by_cases same : other = number
  · subst same
    simpa [Relation.copyFlags] using bit
  · simp only [Relation.copyFlags, Function.update_of_ne same] at bit
    refine sound.bit other bit fun mem => pending ?_
    exact (List.mem_erase_of_ne same).mpr mem

/-- Bits that change without the swept bit do not matter. -/
theorem Relation.Sound.setBits (sound : relation.Sound) {bits : Bits}
    (same : bits.swept = (relation.bits number).swept) :
    { relation with bits := Function.update relation.bits number bits }.Sound := by
  refine ⟨sound.clean, fun other bit pending => sound.bit other ?_ pending⟩
  by_cases equal : other = number
  · subst equal
    simpa [same] using bit
  · simpa [Function.update_of_ne equal] using bit

theorem Relation.Sound.extend (sound : relation.Sound) (secondary : Bool) :
    (relation.step (.extend number secondary)).Sound := by
  refine ⟨fun other swept => ?_, fun other bit pending => ?_⟩
  · by_cases same : other = number
    · subst same
      simp [Relation.step, DataPage.fresh] at swept
    · simp only [Relation.step, Function.update_of_ne same] at swept ⊢
      exact sound.clean other swept
  · by_cases same : other = number
    · subst same
      simp [Relation.step] at bit
    · simp only [Relation.step, Function.update_of_ne same] at bit ⊢
      exact sound.bit other bit pending

theorem step_sound (sound : relation.Sound) {event : Event} (careful : Careful relation event) :
    (relation.step event).Sound := by
  cases event with
  | store number line primary header => exact sound.release (releaseCleared_safe rfl)
  | storeBigRecord number line primary header =>
      exact sound.release (.of_unswept careful (storeBigRecord_swept _ _ _ _))
  | storeBlob number line level =>
      exact sound.release (.of_unswept careful (storeBlob_swept _ _ _))
  | update number line header => exact sound.release (releaseCleared_safe rfl)
  | fragmentHead number line own record =>
      exact sound.release (.of_unswept careful (fragmentHead_swept _ _ _ _))
  | fragmentTail number line own record =>
      exact sound.release (fragmentTail_safe (sound.clean number) record)
  | chain number line slot record => exact sound.release (chain_safe (sound.clean number) record)
  | backout number line => exact sound.release (backout_safe (sound.clean number))
  | backoutMark number line => exact sound.release (backoutMark_safe (sound.clean number))
  | rewriteHeader number line => exact sound.release (rewriteHeader_safe (sound.clean number))
  | delete number line =>
      exact sound.release (.of_clean rfl (sound.clean number) DataPage.Clean.remove)
  | checkSwept number oldest => exact sound.checkSwept oldest
  | markFull number => exact sound.copyFlags
  | locateEmpty number primary => exact sound.setBits rfl
  | markEmpty number => exact sound.setBits rfl
  | extend number secondary => exact sound.extend secondary

/-- A page without the flag stays without it when a record is stored or replaced on it, and the
routines that look at the flag clear it. -/
theorem step_unswept {event : Event} (legal : Legal relation event)
    (careful : Careful relation event) (stores : event.stores = some number) :
    ((relation.step event).pages number).swept = false := by
  have found : ∀ {line}, (relation.pages number).header? line ≠ none →
      ∃ header, (relation.pages number).header? line = some header :=
    fun held => Option.ne_none_iff_exists'.mp held
  cases event with
  | store other line primary header =>
      cases stores
      simp only [Relation.step, Relation.release, Function.update_self, store, releaseCleared_swept]
  | storeBigRecord other line primary header =>
      cases stores
      simp only [Relation.step, Relation.release, Function.update_self, storeBigRecord_swept]
      exact careful
  | storeBlob other line level =>
      cases stores
      simp only [Relation.step, Relation.release, Function.update_self, storeBlob_swept]
      exact careful
  | update other line header =>
      cases stores
      simp only [Relation.step, Relation.release, Function.update_self, update, releaseCleared_swept]
  | fragmentHead other line own record =>
      cases stores
      simp only [Relation.step, Relation.release, Function.update_self, fragmentHead_swept]
      exact careful
  | fragmentTail other line own record =>
      cases stores
      obtain ⟨header, at_line⟩ := found legal
      simp only [Relation.step, Relation.release, Function.update_self, fragmentTail, at_line,
        releaseCleared_swept]
  | chain other line slot record =>
      cases stores
      obtain ⟨header, at_line⟩ := found legal
      simp only [Relation.step, Relation.release, Function.update_self, chain, at_line,
        releaseCleared_swept]
  | _ => cases stores

/-- A routine that does not look at the flag leaves it as it finds it. -/
theorem careful_of_unswept {event : Event}
    (unswept : ∀ number, event.stores = some number →
      ((relation.step event).pages number).swept = false) : Careful relation event := by
  cases event with
  | storeBigRecord number line primary header =>
      have after := unswept number rfl
      simp only [Relation.step, Relation.release, Function.update_self, storeBigRecord_swept] at after
      exact after
  | storeBlob number line level =>
      have after := unswept number rfl
      simp only [Relation.step, Relation.release, Function.update_self, storeBlob_swept] at after
      exact after
  | fragmentHead number line own record =>
      have after := unswept number rfl
      simp only [Relation.step, Relation.release, Function.update_self, fragmentHead_swept] at after
      exact after
  | _ => trivial

/-- In every sequence of page operations and sweeps, the flagged pages are clean throughout and
every writer leaves its page without the flag exactly when no front part of a big record and no blob
is placed on a flagged page and `fragment` starts on none. -/
theorem upheld_iff {events : List Event} (sound : relation.Sound)
    (legal : Throughout Legal relation events) :
    Upheld relation events ↔ Throughout Careful relation events := by
  induction events generalizing relation with
  | nil => exact ⟨fun _ => trivial, fun _ => sound⟩
  | cons event events inductive_hypothesis =>
      constructor
      · rintro ⟨-, unswept, later⟩
        have careful := careful_of_unswept unswept
        exact ⟨careful, (inductive_hypothesis (step_sound sound careful) legal.2).mp later⟩
      · rintro ⟨careful, later⟩
        exact ⟨sound, fun number stores => step_unswept legal.1 careful stores,
          (inductive_hypothesis (step_sound sound careful) legal.2).mpr later⟩

end Steps

/-- A relation of fresh primary pages. -/
def freshRelation : Relation where
  pages _ := DataPage.fresh false
  bits _ := { swept := false, secondary := false, empty := false }
  markFull := []
  markedAt _ := 0

theorem freshRelation_sound : freshRelation.Sound :=
  ⟨fun _ swept => (nomatch swept), fun _ bit => (nomatch bit)⟩

/-- A record stored on a page, sweep over the page, and the record changed. -/
def sweptThenUpdated : List Event :=
  [.store 1 0 true { transaction := 3, flags := .none, backPage := 0, backLine := 0 },
    .checkSwept 1 5, .markFull 1,
    .update 1 0 { transaction := 9, flags := .none, backPage := 2, backLine := 0 }]

theorem sweptThenUpdated_upheld :
    Upheld freshRelation sweptThenUpdated ↔ Throughout Careful freshRelation sweptThenUpdated :=
  upheld_iff freshRelation_sound ⟨trivial, trivial, trivial, Option.some_ne_none _, trivial⟩

/-- A record stored on a page, sweep over the page, and the front part of a big record stored. -/
def sweptThenBigRecord : List Event :=
  [.store 1 0 true { transaction := 3, flags := .none, backPage := 0, backLine := 0 },
    .checkSwept 1 5, .markFull 1,
    .storeBigRecord 1 1 true { transaction := 9, flags := .none, backPage := 0, backLine := 0 }]

/-- The page is still flagged as swept at 5 with the record of transaction 9 on it. -/
theorem not_sweptPagesClean : ¬ SweptPagesClean := by
  intro holds
  have upheld := holds freshRelation sweptThenBigRecord freshRelation_sound
    ⟨trivial, trivial, trivial, trivial, trivial⟩
  obtain ⟨-, -, -, -, -, -, -, -, sound⟩ := upheld
  have clean := sound.clean 1 rfl
  have front := clean
    { transaction := 9, flags := { RecordFlags.none with incomplete := true, large := true },
      backPage := 0, backLine := 0 } (by decide)
  exact absurd front.transaction (by decide)

end SweptFlag
end Firebird
