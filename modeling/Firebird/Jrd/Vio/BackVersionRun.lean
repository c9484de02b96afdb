import Firebird.Jrd.Vio.BackVersionData

/-!
# Back versions along a run

Every operation on a chain that stands for a history gives one that stands for the history after it.
What can go wrong is `VIO_writelock` on a record in an old format: its `new_rpb` starts with the flags
of the old primary version, so `rpb_delta` may be set although the old version is stored whole.
-/

namespace Firebird
namespace BackVersions

open Compressor (maxDifferences makeDiff makeNoDiff applyDiff)

/-- `prepare_update` stores the old version as differences to the new data. -/
def storesDifferences (new old : List UInt8) : Bool :=
  match differences new old with
  | .ok (some _) => true
  | _ => false

/-- The data of the new version, given those of the old one. -/
def NewData.data (old : List UInt8) : NewData → List UInt8
  | .erased => []
  | .shared => old
  | .changed data => data

/-- The old version is stored as differences to the new one. -/
def NewData.delta (old : List UInt8) : NewData → Bool
  | .erased => false
  | .shared => true
  | .changed data => storesDifferences data old

section Operations

variable {org : Stored} {older : List Stored} {past : List Entry} {data : List UInt8}

/-- The primary version read by a statement. -/
theorem readPrimary_spec (length : org.bytes.length = org.format.fmt_length) :
    ∃ record : Record,
      readPrimary org older =
          .ok (record, if org.isPrior older then some record else none) ∧
        record.data = org.bytes ∧ record.m_format = org.format ∧ record.Full := by
  refine ⟨((Record.new org.format).reset org.format).write org.bytes, ?_, ?_,
    Record.reset_format _ _, (Record.new_full org.format).reset org.format⟩
  · rw [readPrimary, vioData_whole _ length]
    rfl
  · refine Record.write_data ?_
    rw [Record.reset_format, length]

/-- A differences string that is stored. -/
theorem differences_spec (new old : List UInt8) :
    ∃ result, differences new old = .ok result ∧
      ∀ bytes, result = some bytes → Gives (some new) bytes old := by
  obtain ⟨made, made_eq, complete⟩ :=
    Compressor.applyDiff_makeDiff.1 new old (List.replicate maxDifferences 0)
  cases made with
  | none =>
      refine ⟨none, ?_, fun bytes found => absurd found (by simp)⟩
      rw [differences, made_eq]
      rfl
  | some out =>
      obtain ⟨inside, -, applied⟩ := complete out rfl
      rw [List.length_replicate] at inside
      rw [differences, made_eq]
      dsimp only [bind, Except.bind]
      split
      · refine ⟨_, rfl, fun bytes found => ?_⟩
        obtain rfl := Option.some.inj found
        refine ⟨(List.length_take_le _ _).trans inside, fun area area_length starts => ?_⟩
        rw [applied area starts (Nat.le_of_eq area_length.symm), if_neg (by omega),
          List.drop_eq_nil_of_le (Nat.le_of_eq area_length), List.append_nil]
      · exact ⟨_, rfl, fun bytes found => absurd found (by simp)⟩

/-- The string that marks a record as unchanged. -/
theorem gives_makeNoDiff (small : data.length ≤ maxRecordSize) :
    Gives (some data) (makeNoDiff data.length) data := by
  refine ⟨?_, fun area area_length starts => ?_⟩
  · rw [Compressor.length_makeNoDiff]
    unfold maxRecordSize at small
    unfold maxDifferences
    omega
  · rw [List.take_length] at starts
    obtain rfl := starts.eq_of_length area_length.symm
    have applied := Compressor.applyDiff_makeDiff.2 data
    rw [if_neg (by unfold maxRecordSize at small; unfold maxDifferences; omega)] at applied
    exact applied

/-- What `prepare_update` stores for the primary version. -/
structure Prepared (org : Stored) (older : List Stored) (new : NewData) (temp : Stored) : Prop where
  transaction : temp.rpb_transaction_nr = org.rpb_transaction_nr
  format : temp.format = org.format
  live : temp.deleted = false
  chained : temp.chained = true
  prior : temp.delta = org.isPrior older
  gives : Gives (if new.delta org.bytes then some (new.data org.bytes) else none) temp.bytes org.bytes

theorem prepareUpdate_spec {record : Record} (data_eq : record.data = org.bytes)
    (format : record.m_format = org.format) (length : org.bytes.length = org.format.fmt_length)
    (older : List Stored) (new : NewData) :
    ∃ temp, prepareUpdate org record (org.isPrior older) new = .ok (temp, new.delta org.bytes) ∧
      Prepared org older new temp := by
  cases new with
  | erased => exact ⟨_, rfl, rfl, format, rfl, rfl, rfl, data_eq⟩
  | shared =>
      refine ⟨_, rfl, rfl, format, rfl, rfl, rfl, ?_⟩
      dsimp only
      rw [data_eq]
      have small : org.bytes.length ≤ maxRecordSize := length ▸ org.format.accepted
      exact gives_makeNoDiff small
  | changed data =>
      obtain ⟨result, result_eq, gives⟩ := differences_spec data org.bytes
      have delta_eq : NewData.delta org.bytes (.changed data) = result.isSome := by
        rw [NewData.delta, storesDifferences, result_eq]
        cases result <;> rfl
      rw [delta_eq]
      unfold prepareUpdate
      dsimp only
      rw [data_eq, result_eq, ok_bind]
      cases result with
      | none => exact ⟨_, rfl, rfl, format, rfl, rfl, rfl, by rw [delta_eq]; rfl⟩
      | some bytes => exact ⟨_, rfl, rfl, format, rfl, rfl, rfl, by rw [delta_eq]; exact gives _ rfl⟩

/-- The stored version stands behind the new one as the old one stood in front. -/
theorem Prepared.behind {new : NewData} {temp : Stored} (prepared : Prepared org older new temp)
    (length : org.bytes.length = org.format.fmt_length)
    (later : Behind (if org.isPrior older then some org.bytes else none) older past) :
    Behind (if new.delta org.bytes then some (new.data org.bytes) else none) (temp :: older)
      ({ transaction := org.rpb_transaction_nr, format := org.format,
         content := some org.bytes } :: past) := by
  have prior_eq : temp.isPrior older = org.isPrior older := by
    rw [Stored.isPrior, prepared.prior, Stored.isPrior, Bool.and_assoc, Bool.and_self]
  rw [← prepared.transaction, ← prepared.format]
  refine .back prepared.live prepared.chained ?_ prepared.gives ?_
  · rw [prepared.format, length]
  · rw [prior_eq]
    exact later

theorem Prepared.widening {new : NewData} {temp primary : Stored}
    (prepared : Prepared org older new temp) (widening : Widening (org :: older))
    (wide : primary.delta = true → org.isPrior older = true →
      org.format.fmt_length ≤ primary.format.fmt_length) :
    Widening (primary :: temp :: older) := by
  refine List.isChain_cons_cons.mpr ⟨fun delta prior => ?_, ?_⟩
  · rw [prepared.prior] at prior
    rw [prepared.format]
    exact wide delta prior
  · cases older with
    | nil => exact List.IsChain.singleton _
    | cons back older =>
        obtain ⟨here, later⟩ := List.isChain_cons_cons.mp widening
        refine List.isChain_cons_cons.mpr ⟨fun delta => ?_, later⟩
        rw [prepared.prior, Stored.isPrior, Bool.and_eq_true] at delta
        rw [prepared.format]
        exact here delta.1

/-- The version in front of the stored one. -/
theorem Prepared.encodes {new : NewData} {temp primary : Stored}
    (prepared : Prepared org older new temp) (length : org.bytes.length = org.format.fmt_length)
    (later : Behind (if org.isPrior older then some org.bytes else none) older past)
    (live : primary.deleted = false) (front : primary.chained = false)
    (sized : primary.bytes.length = primary.format.fmt_length)
    (bytes : primary.bytes = new.data org.bytes) (delta : primary.delta = new.delta org.bytes) :
    Encodes (primary :: temp :: older)
      ({ transaction := primary.rpb_transaction_nr, format := primary.format,
         content := some primary.bytes } ::
        { transaction := org.rpb_transaction_nr, format := org.format, content := some org.bytes } ::
          past) := by
  have prior_eq : primary.isPrior (temp :: older) = new.delta org.bytes := by
    rw [Stored.isPrior, delta, List.isEmpty_cons, Bool.not_false, Bool.and_true]
  refine .live live front sized ?_
  rw [prior_eq, bytes]
  exact prepared.behind length later

theorem delta_of_isPrior (isPrior : org.isPrior older = true) :
    org.delta = true ∧ older ≠ [] := by
  rw [Stored.isPrior, Bool.and_eq_true, Bool.not_eq_true'] at isPrior
  exact ⟨isPrior.1, by simpa using isPrior.2⟩

/-- A primary version in front of back versions that do not need its data. -/
theorem encodes_replaced {primary : Stored} (later : Behind none older past)
    (apart : primary.isPrior older = false) (front : primary.chained = false)
    (sized : primary.deleted = false → primary.bytes.length = primary.format.fmt_length)
    (whole : primary.deleted = true → primary.delta = false) :
    Encodes (primary :: older)
      ({ transaction := primary.rpb_transaction_nr, format := primary.format,
         content := if primary.deleted then none else some primary.bytes } :: past) := by
  cases gone : primary.deleted with
  | true => exact .deleted gone (whole gone) front later
  | false =>
      refine .live gone front (sized gone) ?_
      rw [apart]
      exact later

/-- A chain after `VIO_update_in_place`: if the version behind is a difference to the old data, it is
stored whole, and what is behind it stays as it is. -/
theorem updateInPlace_spec {prior : Option Record} {new : NewVersion} {content : List UInt8}
    (later : Behind (if org.isPrior older then some content else none) older past)
    (prior_eq : org.isPrior older = prior.isSome)
    (prior_data : ∀ record, prior = some record → record.data = content ∧ record.Full)
    (sized : new.deleted = false → new.data.length = new.format.fmt_length)
    (whole : new.deleted = true → org.delta = true → older ≠ []) :
    ∃ after, updateInPlace org older prior new = .ok after ∧
      Encodes after
        ({ transaction := org.rpb_transaction_nr, format := new.format,
           content := if new.deleted then none else some new.data } :: past) ∧
      (Widening (org :: older) → Widening after) := by
  cases prior with
  | none =>
      rw [prior_eq] at later
      have apart : org.isPrior older = false := prior_eq
      have no_delta : older ≠ [] → org.delta = false := by
        intro some_older
        rw [Stored.isPrior, List.isEmpty_eq_false_iff.mpr some_older] at apart
        simpa using apart
      refine ⟨_, rfl, encodes_replaced later apart rfl sized fun gone => ?_, fun widening => ?_⟩
      · by_contra delta
        have some_older := whole gone (by simpa using delta)
        exact delta (no_delta some_older)
      · cases older with
        | nil => exact List.IsChain.singleton _
        | cons back older =>
            refine List.isChain_cons_cons.mpr ⟨fun delta => ?_, (List.isChain_cons_cons.mp widening).2⟩
            rw [show org.delta = true from delta] at no_delta
            exact absurd (no_delta (List.cons_ne_nil _ _)) (by simp)
  | some record =>
      obtain ⟨data_eq, full⟩ := prior_data record rfl
      have isPrior : org.isPrior older = true := prior_eq
      obtain ⟨delta, some_older⟩ := delta_of_isPrior isPrior
      rw [if_pos isPrior] at later
      cases later with
      | @back _ back rest kept past live chained length gives later =>
          obtain ⟨read, read_eq, kept_eq, -, -⟩ := @vioData_back back record kept false true chained
            length (by rw [if_pos rfl, data_eq]; exact gives) (fun _ => full)
          simp only [Bool.false_eq_true, if_false, if_true] at read_eq
          have same_prior :
              ({ back with
                  deleted := false, delta := back.isPrior rest, chained := true,
                  bytes := read.data } : Stored).isPrior rest = back.isPrior rest := by
            simp only [Stored.isPrior, Bool.and_assoc, Bool.and_self]
          have stored : Behind none
              ({ back with
                  deleted := false, delta := back.isPrior rest, chained := true,
                  bytes := read.data } :: rest)
              ({ transaction := back.rpb_transaction_nr, format := back.format,
                 content := some kept } :: past) := by
            refine .back rfl rfl length kept_eq ?_
            rw [same_prior]
            exact later
          refine ⟨{ org with
                    format := new.format, deleted := new.deleted, delta := false, chained := false,
                    bytes := new.data } :: _ :: rest, ?_,
            encodes_replaced stored rfl rfl sized fun _ => rfl, fun widening => ?_⟩
          · unfold updateInPlace
            dsimp only
            rw [read_eq, ok_bind]
            rfl
          · have behind := (List.isChain_cons_cons.mp widening).2
            refine List.isChain_cons_cons.mpr ⟨fun none_prior => absurd none_prior (by simp), ?_⟩
            cases rest with
            | nil => exact List.IsChain.singleton _
            | cons next rest =>
                obtain ⟨here, after⟩ := List.isChain_cons_cons.mp behind
                refine List.isChain_cons_cons.mpr ⟨fun back_delta => here ?_, after⟩
                exact (delta_of_isPrior back_delta).1

/-- What the callers promise: data is as long as its format, and what is undone is the transaction's
own version. -/
def Legal (chain : List Stored) : Event → Prop
  | .modify _ _ format data => data.length = format.fmt_length
  | .writelock _ current copied => copied.length = current.fmt_length
  | .undo number data =>
      ∃ org older, chain = org :: older ∧ org.rpb_transaction_nr = number ∧
        data.length = org.format.fmt_length
  | _ => True

/-- The condition on an event: a lock that brings a record marked with `rpb_delta` into the current
format finds differences that are short enough to be stored, a version that is stored as differences
and has differences behind it is not longer than the new one, and no transaction erases its own
version while the mark is set without a version behind. -/
def Careful : List Stored → Event → Prop
  | org :: older, .modify number system format data =>
      ¬(system = true ∨ (org.rpb_transaction_nr = number ∧ org.format = format)) →
        org.isPrior older = true → storesDifferences data org.bytes = true →
          org.format.fmt_length ≤ format.fmt_length
  | org :: older, .writelock number current copied =>
      org.rpb_transaction_nr ≠ number → current ≠ org.format →
        (org.delta = true → storesDifferences copied org.bytes = true) ∧
        (org.isPrior older = true → storesDifferences copied org.bytes = true →
          org.format.fmt_length ≤ current.fmt_length)
  | org :: older, .erase number _ =>
      org.rpb_transaction_nr = number → org.delta = true → older ≠ []
  | _, _ => True

/-- A chain that an event leaves. -/
structure Kept (chain after : List Stored) (past : List Entry) : Prop where
  encodes : Encodes after past
  widening : Widening chain → Widening after

theorem isSome_prior {record : Record} {isPrior : Bool} :
    (if isPrior = true then some record else none).isSome = isPrior := by
  cases isPrior <;> rfl

theorem of_prior {record : Record} (isPrior : Bool) (data_eq : record.data = org.bytes)
    (full : record.Full) : ∀ found, (if isPrior = true then some record else none) = some found →
      found.data = org.bytes ∧ found.Full := by
  intro found found_eq
  cases isPrior with
  | false => simp at found_eq
  | true =>
      obtain rfl : record = found := by simpa using found_eq
      exact ⟨data_eq, full⟩

theorem modify_kept {chain : List Stored} (encodes : Encodes chain past) (number : Nat)
    (system : Bool) {format : Format} (sized : data.length = format.fmt_length)
    (careful : Careful chain (.modify number system format data)) :
    ∃ after, modify number system format data chain = .ok after ∧
      Kept chain after (history past (.modify number system format data)) := by
  cases encodes with
  | gone => exact ⟨[], rfl, .gone, id⟩
  | @deleted org older past deleted whole primary later =>
      refine ⟨org :: older, ?_, .deleted deleted whole primary later, id⟩
      rw [modify, if_pos deleted]
  | @live org older past live primary length later =>
      obtain ⟨record, read, data_eq, format_eq, full⟩ := @readPrimary_spec org older length
      rw [modify, if_neg (by simp [live]), read, ok_bind]
      simp only [history, Option.isNone_some, Bool.false_eq_true, if_false]
      by_cases here : system = true ∨ (org.rpb_transaction_nr = number ∧ org.format = format)
      · rw [if_pos here, if_pos here]
        obtain ⟨after, updated, encodes, widening⟩ := @updateInPlace_spec org older past _
          { format, data, deleted := false } org.bytes later isSome_prior.symm
          (of_prior _ data_eq full) (fun _ => sized) (by simp)
        exact ⟨after, updated, encodes, widening⟩
      · rw [if_neg here, if_neg here, isSome_prior]
        obtain ⟨temp, stored, prepared⟩ :=
          prepareUpdate_spec data_eq format_eq length older (.changed data)
        rw [stored, ok_bind]
        refine ⟨_, rfl, prepared.encodes length later live rfl sized rfl rfl, fun widening => ?_⟩
        exact prepared.widening widening fun delta prior => careful here prior delta

theorem writelock_kept {chain : List Stored} (encodes : Encodes chain past) (number : Nat)
    {current : Format} {copied : List UInt8} (sized : copied.length = current.fmt_length)
    (careful : Careful chain (.writelock number current copied)) :
    ∃ after, writelock number current copied chain = .ok after ∧
      Kept chain after (history past (.writelock number current copied)) := by
  cases encodes with
  | gone => exact ⟨[], rfl, .gone, id⟩
  | @deleted org older past deleted whole primary later =>
      refine ⟨org :: older, ?_, .deleted deleted whole primary later, id⟩
      rw [writelock, if_pos (Or.inl deleted)]
  | @live org older past live primary length later =>
      by_cases own : org.rpb_transaction_nr = number
      · rw [writelock, if_pos (Or.inr own), history, if_pos (Or.inr own)]
        exact ⟨_, rfl, .live live primary length later, id⟩
      · obtain ⟨record, read, data_eq, format_eq, full⟩ := @readPrimary_spec org older length
        rw [writelock, if_neg (by simp [live, own]), read, ok_bind]
        dsimp only
        rw [isSome_prior]
        simp only [history, Option.isNone_some, Bool.false_eq_true, false_or, own, if_false]
        by_cases upgraded : current = org.format
        · subst upgraded
          simp only [ne_eq, not_true_eq_false, if_false]
          obtain ⟨temp, stored, prepared⟩ := prepareUpdate_spec data_eq format_eq length older .shared
          rw [stored, ok_bind, data_eq]
          refine ⟨_, rfl, prepared.encodes length later live rfl length rfl ?_, fun widening => ?_⟩
          · exact Bool.or_true _
          · exact prepared.widening widening fun _ _ => Nat.le_refl _
        · obtain ⟨marked, wide⟩ := careful own upgraded
          simp only [ne_eq, upgraded, not_false_eq_true, if_true]
          obtain ⟨temp, stored, prepared⟩ :=
            prepareUpdate_spec data_eq format_eq length older (.changed copied)
          have delta_eq : (org.delta || NewData.delta org.bytes (.changed copied)) =
              NewData.delta org.bytes (.changed copied) := by
            cases mark : org.delta with
            | false => rfl
            | true => exact (marked mark).symm
          rw [stored, ok_bind, delta_eq]
          refine ⟨_, rfl, prepared.encodes length later live rfl sized rfl rfl, fun widening => ?_⟩
          exact prepared.widening widening fun delta prior => wide prior delta

theorem erase_kept {chain : List Stored} (encodes : Encodes chain past) (number : Nat) (fits : Bool)
    (careful : Careful chain (.erase number fits)) :
    ∃ after, erase number fits chain = .ok after ∧
      Kept chain after (history past (.erase number fits)) := by
  cases encodes with
  | gone => exact ⟨[], rfl, .gone, id⟩
  | @deleted org older past deleted whole primary later =>
      refine ⟨org :: older, ?_, .deleted deleted whole primary later, id⟩
      rw [erase, if_pos deleted]
  | @live org older past live primary length later =>
      obtain ⟨record, read, data_eq, format_eq, full⟩ := @readPrimary_spec org older length
      rw [erase, if_neg (by simp [live]), read, ok_bind]
      simp only [history, Option.isNone_some, Bool.false_eq_true, if_false]
      by_cases own : org.rpb_transaction_nr = number
      · rw [if_pos own, if_pos own]
        obtain ⟨after, updated, encodes, widening⟩ := @updateInPlace_spec org older past _
          { format := org.format, data := [], deleted := true } org.bytes later isSome_prior.symm
          (of_prior _ data_eq full) (by simp) (fun _ => careful own)
        exact ⟨after, updated, encodes, widening⟩
      · rw [if_neg own, if_neg own, isSome_prior]
        split
        · refine ⟨_, rfl, .deleted rfl rfl rfl (.back live rfl length rfl later), fun widening => ?_⟩
          refine List.isChain_cons_cons.mpr ⟨fun delta => absurd delta (by simp), ?_⟩
          cases older with
          | nil => exact List.IsChain.singleton _
          | cons back older => exact List.isChain_cons_cons.mpr (List.isChain_cons_cons.mp widening)
        · obtain ⟨temp, stored, prepared⟩ := prepareUpdate_spec data_eq format_eq length older .erased
          rw [stored, ok_bind]
          refine ⟨_, rfl, .deleted rfl rfl rfl (prepared.behind length later), fun widening => ?_⟩
          exact prepared.widening widening fun delta => absurd delta (by simp)

theorem undo_kept {chain : List Stored} (encodes : Encodes chain past) {number : Nat}
    (legal : Legal chain (.undo number data)) :
    ∃ after, undo number data chain = .ok after ∧
      Kept chain after (history past (.undo number data)) := by
  obtain ⟨org, older, rfl, own, sized⟩ := legal
  cases encodes with
  | @deleted _ _ past deleted whole primary later =>
      have apart : org.isPrior older = false := by rw [Stored.isPrior, whole, Bool.false_and]
      obtain ⟨after, updated, encodes, widening⟩ := @updateInPlace_spec org older past none
        { format := org.format, data, deleted := false } [] (by rw [apart]; exact later) apart
        (by simp) (fun _ => sized) (by simp)
      refine ⟨after, ?_, encodes, widening⟩
      rw [undo, if_pos deleted]
      simp only [bind, Except.bind, pure, Except.pure]
      rw [if_neg (not_not.mpr own)]
      exact updated
  | @live _ _ past live primary length later =>
      obtain ⟨record, read, data_eq, format_eq, full⟩ := @readPrimary_spec org older length
      obtain ⟨after, updated, encodes, widening⟩ := @updateInPlace_spec org older past _
        { format := org.format, data, deleted := false } org.bytes later isSome_prior.symm
        (of_prior _ data_eq full) (fun _ => sized) (by simp)
      refine ⟨after, ?_, encodes, widening⟩
      rw [undo, if_neg (by simp [live]), read]
      simp only [bind, Except.bind, pure, Except.pure]
      rw [if_neg (not_not.mpr own)]
      exact updated

theorem isPrior_purge (version back : Stored) (older : List Stored) (position : Nat) :
    version.isPrior (purge position (back :: older)) = version.isPrior (back :: older) := by
  cases position <;> cases older <;> rfl

theorem Behind.eq_nil {above : Option (List UInt8)} (behind : Behind above [] past) : past = [] := by
  cases behind with
  | nil => rfl

/-- What is cut off is off the history as well. -/
theorem Behind.purge {above : Option (List UInt8)} {chain : List Stored}
    (behind : Behind above chain past) (position : Nat) :
    Behind above (BackVersions.purge position chain) (past.take (position + 1)) := by
  induction behind generalizing position with
  | nil => cases position <;> exact .nil
  | @back above version older content past live chained length gives later ih =>
      cases older with
      | nil =>
          obtain rfl := later.eq_nil
          cases position <;> exact .back live chained length gives later
      | cons back older =>
          cases position with
          | zero => exact .back live chained length gives .nil
          | succ position =>
              rw [BackVersions.purge, List.take_succ_cons]
              refine .back live chained length gives ?_
              rw [isPrior_purge]
              exact ih position

theorem Encodes.purge {chain : List Stored} (encodes : Encodes chain past) (position : Nat) :
    Encodes (BackVersions.purge position chain) (past.take (position + 1)) := by
  cases encodes with
  | gone => cases position <;> exact .gone
  | @deleted version older past deleted whole primary later =>
      cases older with
      | nil =>
          obtain rfl := later.eq_nil
          cases position <;> exact .deleted deleted whole primary later
      | cons back older =>
          cases position with
          | zero => exact .deleted deleted rfl primary .nil
          | succ position => exact .deleted deleted whole primary (later.purge position)
  | @live version older past live primary length later =>
      cases older with
      | nil =>
          obtain rfl := later.eq_nil
          cases position <;> exact .live live primary length later
      | cons back older =>
          cases position with
          | zero => exact .live live primary length .nil
          | succ position =>
              rw [BackVersions.purge, List.take_succ_cons]
              refine .live live primary length ?_
              rw [isPrior_purge]
              exact later.purge position

theorem Widening.purge {chain : List Stored} (widening : Widening chain) (position : Nat) :
    Widening (BackVersions.purge position chain) := by
  induction chain generalizing position with
  | nil => cases position <;> exact List.IsChain.nil
  | cons version older ih =>
      cases older with
      | nil => cases position <;> exact List.IsChain.singleton _
      | cons back older =>
          obtain ⟨here, later⟩ := List.isChain_cons_cons.mp widening
          cases position with
          | zero => exact List.IsChain.singleton _
          | succ position =>
              have rest := ih later position
              rw [BackVersions.purge]
              unfold Widening at rest ⊢
              cases older with
              | nil =>
                  rw [BackVersions.purge.eq_def] at rest ⊢
                  cases position <;> exact List.isChain_cons_cons.mpr ⟨here, rest⟩
              | cons next older =>
                  cases position with
                  | zero =>
                      exact List.isChain_cons_cons.mpr ⟨fun _ none => absurd none (by simp), rest⟩
                  | succ position => exact List.isChain_cons_cons.mpr ⟨here, rest⟩

theorem purge_kept {chain : List Stored} (encodes : Encodes chain past) (position : Nat) :
    Kept chain (purge position chain) (history past (.purge position)) := by
  refine ⟨?_, fun widening => widening.purge position⟩
  have cut := encodes.purge position
  cases encodes <;> exact cut

theorem expunge_kept {chain : List Stored} (encodes : Encodes chain past) :
    Kept chain (expunge chain) (history past .expunge) := by
  cases encodes with
  | gone => exact ⟨.gone, id⟩
  | deleted deleted whole primary later =>
      rw [expunge, if_pos deleted]
      exact ⟨.gone, fun _ => List.IsChain.nil⟩
  | live live primary length later =>
      rw [expunge, if_neg (by simp [live])]
      exact ⟨.live live primary length later, id⟩

section Forward

variable {back : Stored} {rest : List Stored} {kept : List UInt8} {delta : Bool}

/-- The back version in the place of the primary one, with the versions behind it or without. -/
theorem forward_kept (live : back.deleted = false) (length : kept.length = back.format.fmt_length)
    (later : Behind (if back.isPrior rest then some kept else none) rest past) (cut : Bool)
    (same : cut = false → (delta && !rest.isEmpty) = back.isPrior rest) :
    Kept (org :: back :: rest)
      ({ back with delta, chained := false, bytes := kept } :: if cut then [] else rest)
      ({ transaction := back.rpb_transaction_nr, format := back.format, content := some kept } ::
        if cut then [] else past) := by
  cases cut with
  | true =>
      refine ⟨.live live rfl length ?_, fun _ => List.IsChain.singleton _⟩
      rw [Stored.isPrior, if_pos rfl, List.isEmpty_nil, Bool.not_true, Bool.and_false]
      exact .nil
  | false =>
      refine ⟨.live live rfl length ?_, fun widening => ?_⟩
      · rw [← same rfl] at later
        exact later
      · have behind := (List.isChain_cons_cons.mp widening).2
        cases rest with
        | nil => exact List.IsChain.singleton _
        | cons next rest =>
            obtain ⟨here, later⟩ := List.isChain_cons_cons.mp behind
            refine List.isChain_cons_cons.mpr ⟨fun delta_set => here ?_, later⟩
            have prior := same rfl
            rw [show delta = true from delta_set] at prior
            exact (delta_of_isPrior prior.symm).1

theorem take_of_cut {above : Option (List UInt8)} (later : Behind above rest past) (entry : Entry)
    (purged : Bool) :
    (if purged = true then (entry :: past).take 1 else entry :: past) =
      entry :: if (purged && !rest.isEmpty) = true then [] else past := by
  cases purged with
  | false => rfl
  | true =>
      cases rest with
      | nil =>
          obtain rfl := later.eq_nil
          rfl
      | cons back rest => rfl

theorem isPrior_and (back : Stored) (rest : List Stored) :
    (back.isPrior rest && !rest.isEmpty) = back.isPrior rest := by
  rw [Stored.isPrior, Bool.and_assoc, Bool.and_self]

end Forward

theorem backout_kept {chain : List Stored} (encodes : Encodes chain past) (together purged : Bool) :
    ∃ after, backout together purged chain = .ok after ∧
      Kept chain after (history past (.backout together purged)) := by
  cases encodes with
  | gone => exact ⟨[], rfl, .gone, id⟩
  | @deleted org older past deleted whole primary later =>
      rw [backout, if_pos ⟨deleted, whole⟩]
      simp only [history, Option.isSome_none, Bool.false_eq_true, and_false, if_false]
      simp only [pure, Except.pure, ok_bind, whole, deleted, Bool.not_true, Bool.and_false,
        Bool.false_and, Bool.false_eq_true, if_false, Bool.not_false, Bool.and_true,
        Option.isNone_none, and_true]
      cases later with
      | nil => exact ⟨[], rfl, .gone, fun _ => List.IsChain.nil⟩
      | @back _ back rest kept past live chained length gives later =>
          obtain rfl : back.bytes = kept := gives
          have read := vioData_whole (Record.new back.format) length
          have read_data : (((Record.new back.format).reset back.format).write back.bytes).data =
              back.bytes := by
            refine Record.write_data ?_
            rw [Record.reset_format, length]
          dsimp only
          rw [if_neg (by simp [live]), read, ok_bind, read_data]
          split
          · exact ⟨_, rfl, forward_kept live length later false fun _ => rfl⟩
          · exact ⟨_, rfl, forward_kept live length later false fun _ => isPrior_and back rest⟩
  | @live org older past live primary length later =>
      obtain ⟨record, read, data_eq, format_eq, full⟩ := @readPrimary_spec org older length
      rw [backout, if_neg (by simp [live]), read]
      simp only [history, Option.isSome_some, and_true]
      simp only [pure, Except.pure, ok_bind, live, Bool.not_false, Bool.and_true]
      rw [← data_eq] at later
      obtain ⟨above, above_eq⟩ : ∃ above,
          (if org.isPrior older then some record.data else none) = above := ⟨_, rfl⟩
      rw [above_eq] at later
      cases later with
      | nil =>
          refine ⟨[], rfl, ?_, fun _ => List.IsChain.nil⟩
          split <;> exact .gone
      | @back _ back rest kept past live chained length gives later =>
          rw [← above_eq] at gives
          obtain ⟨after, back_read, kept_eq, -, -⟩ := @vioData_back back record kept false
            (org.isPrior (back :: rest)) chained length gives fun _ => full
          have delta_eq : org.isPrior (back :: rest) = org.delta := by
            rw [Stored.isPrior, List.isEmpty_cons, Bool.not_false, Bool.and_true]
          rw [delta_eq] at gives back_read
          obtain ⟨cut, cut_eq⟩ : ∃ cut, (purged && !rest.isEmpty) = cut := ⟨_, rfl⟩
          dsimp only
          rw [take_of_cut later, delta_eq, if_neg (by simp [live])]
          cases mark : org.delta with
          | false =>
              rw [mark] at gives back_read
              obtain rfl : back.bytes = kept := gives
              simp only [Bool.false_eq_true, if_false] at back_read ⊢
              rw [back_read, ok_bind, kept_eq, cut_eq]
              split
              · exact ⟨_, rfl, forward_kept live length later cut fun none_cut => by
                  rw [none_cut, Bool.not_false, Bool.and_true]
                  rfl⟩
              · exact ⟨_, rfl, forward_kept live length later cut fun _ => isPrior_and back rest⟩
          | true =>
              rw [mark] at back_read
              simp only [Bool.false_eq_true, if_false, if_true] at back_read ⊢
              rw [back_read, ok_bind, kept_eq, cut_eq, if_neg (by simp)]
              exact ⟨_, rfl, forward_kept live length later cut fun _ => isPrior_and back rest⟩

/-- Every event that the condition admits is carried out, and its chain stands for its history. -/
theorem step_kept {chain : List Stored} (encodes : Encodes chain past) {event : Event}
    (legal : Legal chain event) (careful : Careful chain event) :
    ∃ after, step chain event = .ok after ∧ Kept chain after (history past event) := by
  cases event with
  | modify number system format data => exact modify_kept encodes number system legal careful
  | writelock number current copied => exact writelock_kept encodes number legal careful
  | erase number fits => exact erase_kept encodes number fits careful
  | undo number data => exact undo_kept encodes legal
  | backout together purged => exact backout_kept encodes together purged
  | purge position => exact ⟨_, rfl, purge_kept encodes position⟩
  | expunge => exact ⟨_, rfl, expunge_kept encodes⟩

end Operations

/-- The versions of a chain are read as they were when they were current, into one record or into a
record for each. -/
def Decodes (chain : List Stored) (past : List Entry) : Prop :=
  ∀ shared, readVersions shared none false chain = .ok (past.map Entry.content)

/-- A condition on all events of a run. -/
def Throughout (condition : List Stored → Event → Prop) : List Stored → List Event → Prop
  | _, [] => True
  | chain, event :: events =>
      condition chain event ∧
        ∀ after, step chain event = .ok after → Throughout condition after events

/-- Every event is carried out and leaves a chain that decodes. -/
def Decoded : List Stored → List Entry → List Event → Prop
  | _, _, [] => True
  | chain, past, event :: events =>
      ∃ after, step chain event = .ok after ∧ Decodes after (history past event) ∧
        Decoded after (history past event) events

/-- A record that `VIO_store` has stored. -/
def freshChain (number : Nat) (format : Format) (data : List UInt8) : List Stored :=
  [{ rpb_transaction_nr := number, format, deleted := false, delta := false, chained := false,
     bytes := data }]

/-- Its history. -/
def freshHistory (number : Nat) (format : Format) (data : List UInt8) : List Entry :=
  [{ transaction := number, format, content := some data }]

theorem decoded_of_encodes {chain : List Stored} {past : List Entry} {events : List Event}
    (encodes : Encodes chain past) (widening : Widening chain)
    (legal : Throughout Legal chain events) (careful : Throughout Careful chain events) :
    Decoded chain past events := by
  induction events generalizing chain past with
  | nil => trivial
  | cons event events ih =>
      obtain ⟨legal_now, legal_later⟩ := legal
      obtain ⟨careful_now, careful_later⟩ := careful
      obtain ⟨after, stepped, kept⟩ := step_kept encodes legal_now careful_now
      have wide := kept.widening widening
      refine ⟨after, stepped, fun shared => kept.encodes.readVersions shared fun _ => wide, ?_⟩
      exact ih kept.encodes wide (legal_later after stepped) (careful_later after stepped)

/-- Every back version decodes to what it was when it was the current one, in every run whose events
meet the condition. -/
theorem decoded_of_careful (number : Nat) (format : Format) (data : List UInt8)
    (events : List Event) (sized : data.length = format.fmt_length)
    (legal : Throughout Legal (freshChain number format data) events)
    (careful : Throughout Careful (freshChain number format data) events) :
    Decoded (freshChain number format data) (freshHistory number format data) events :=
  decoded_of_encodes (.live rfl rfl sized .nil) (List.IsChain.singleton _) legal careful

section Examples

variable {chain after : List Stored} {past : List Entry} {event : Event} {events : List Event}

theorem Decoded.next (decoded : Decoded chain past (event :: events))
    (stepped : step chain event = .ok after) :
    Decodes after (history past event) ∧ Decoded after (history past event) events := by
  obtain ⟨other, other_stepped, decodes, later⟩ := decoded
  rw [stepped] at other_stepped
  obtain rfl := Except.ok.inj other_stepped
  exact ⟨decodes, later⟩

theorem Throughout.next {condition : List Stored → Event → Prop} (now : condition chain event)
    (stepped : step chain event = .ok after) (later : Throughout condition after events) :
    Throughout condition chain (event :: events) := by
  refine ⟨now, fun other other_stepped => ?_⟩
  rw [stepped] at other_stepped
  exact Except.ok.inj other_stepped ▸ later

/-- A format of eight bytes. -/
def eightBytes : Format := { fmt_version := 1, fmt_length := 8, accepted := by decide }

/-- A later format of nine bytes. -/
def nineBytes : Format := { fmt_version := 2, fmt_length := 9, accepted := by decide }

/-- A later format of three bytes. -/
def threeBytes : Format := { fmt_version := 2, fmt_length := 3, accepted := by decide }

/-- A record is changed, changed in place, and changed by another transaction that is backed out. -/
def changedThrice : List Event :=
  [.modify 2 false eightBytes [9, 2, 3, 4, 5, 6, 7, 8],
    .modify 2 false eightBytes [9, 2, 3, 4, 5, 6, 7, 9],
    .modify 3 false eightBytes [9, 9, 3, 4, 5, 6, 7, 9], .backout false false]

theorem changedThrice_decoded :
    Decoded (freshChain 1 eightBytes [1, 2, 3, 4, 5, 6, 7, 8])
      (freshHistory 1 eightBytes [1, 2, 3, 4, 5, 6, 7, 8]) changedThrice := by
  have first : step (freshChain 1 eightBytes [1, 2, 3, 4, 5, 6, 7, 8])
      (.modify 2 false eightBytes [9, 2, 3, 4, 5, 6, 7, 8]) = .ok
        [⟨2, eightBytes, false, true, false, [9, 2, 3, 4, 5, 6, 7, 8]⟩,
          ⟨1, eightBytes, false, false, true, [1, 1, 249]⟩] := by decide +kernel
  have second : step
      [⟨2, eightBytes, false, true, false, [9, 2, 3, 4, 5, 6, 7, 8]⟩,
        ⟨1, eightBytes, false, false, true, [1, 1, 249]⟩]
      (.modify 2 false eightBytes [9, 2, 3, 4, 5, 6, 7, 9]) = .ok
        [⟨2, eightBytes, false, false, false, [9, 2, 3, 4, 5, 6, 7, 9]⟩,
          ⟨1, eightBytes, false, false, true, [1, 2, 3, 4, 5, 6, 7, 8]⟩] := by decide +kernel
  have third : step
      [⟨2, eightBytes, false, false, false, [9, 2, 3, 4, 5, 6, 7, 9]⟩,
        ⟨1, eightBytes, false, false, true, [1, 2, 3, 4, 5, 6, 7, 8]⟩]
      (.modify 3 false eightBytes [9, 9, 3, 4, 5, 6, 7, 9]) = .ok
        [⟨3, eightBytes, false, true, false, [9, 9, 3, 4, 5, 6, 7, 9]⟩,
          ⟨2, eightBytes, false, false, true, [2, 9, 2, 250]⟩,
          ⟨1, eightBytes, false, false, true, [1, 2, 3, 4, 5, 6, 7, 8]⟩] := by decide +kernel
  have fourth : step
      [⟨3, eightBytes, false, true, false, [9, 9, 3, 4, 5, 6, 7, 9]⟩,
        ⟨2, eightBytes, false, false, true, [2, 9, 2, 250]⟩,
        ⟨1, eightBytes, false, false, true, [1, 2, 3, 4, 5, 6, 7, 8]⟩] (.backout false false) = .ok
        [⟨2, eightBytes, false, false, false, [9, 2, 3, 4, 5, 6, 7, 9]⟩,
          ⟨1, eightBytes, false, false, true, [1, 2, 3, 4, 5, 6, 7, 8]⟩] := by decide +kernel
  refine decoded_of_careful 1 eightBytes [1, 2, 3, 4, 5, 6, 7, 8] changedThrice rfl ?_ ?_
  · exact .next rfl first (.next rfl second (.next rfl third (.next trivial fourth trivial)))
  · refine .next (fun _ _ _ => Nat.le_refl _) first (.next (fun _ _ _ => Nat.le_refl _) second
      (.next (fun _ _ _ => Nat.le_refl _) third (.next trivial fourth trivial)))

/-- A record with a back version is changed into a longer format by a lock, whose differences are too
long; and a record is changed twice, the second time into a shorter format. -/
theorem not_decoded :
    ¬Decoded (freshChain 1 eightBytes [1, 1, 1, 1, 1, 1, 1, 1])
        (freshHistory 1 eightBytes [1, 1, 1, 1, 1, 1, 1, 1])
        [.modify 2 false eightBytes [1, 1, 1, 1, 1, 1, 1, 2],
          .writelock 3 nineBytes [9, 9, 9, 9, 9, 9, 9, 9, 9]] ∧
      ¬Decoded (freshChain 1 eightBytes [1, 2, 3, 4, 5, 6, 7, 8])
        (freshHistory 1 eightBytes [1, 2, 3, 4, 5, 6, 7, 8])
        [.modify 2 false eightBytes [9, 2, 3, 4, 5, 6, 7, 8], .modify 3 false threeBytes [9, 2, 3]] := by
  refine ⟨fun decoded => ?_, fun decoded => ?_⟩
  · have first : step (freshChain 1 eightBytes [1, 1, 1, 1, 1, 1, 1, 1])
        (.modify 2 false eightBytes [1, 1, 1, 1, 1, 1, 1, 2]) = .ok
          [⟨2, eightBytes, false, true, false, [1, 1, 1, 1, 1, 1, 1, 2]⟩,
            ⟨1, eightBytes, false, false, true, [249, 1, 1]⟩] := by decide +kernel
    have second : step
        [⟨2, eightBytes, false, true, false, [1, 1, 1, 1, 1, 1, 1, 2]⟩,
          ⟨1, eightBytes, false, false, true, [249, 1, 1]⟩]
        (.writelock 3 nineBytes [9, 9, 9, 9, 9, 9, 9, 9, 9]) = .ok
          [⟨3, nineBytes, false, true, false, [9, 9, 9, 9, 9, 9, 9, 9, 9]⟩,
            ⟨2, eightBytes, false, true, true, [1, 1, 1, 1, 1, 1, 1, 2]⟩,
            ⟨1, eightBytes, false, false, true, [249, 1, 1]⟩] := by decide +kernel
    have misread : readVersions true none false
        [⟨3, nineBytes, false, true, false, [9, 9, 9, 9, 9, 9, 9, 9, 9]⟩,
          ⟨2, eightBytes, false, true, true, [1, 1, 1, 1, 1, 1, 1, 2]⟩,
          ⟨1, eightBytes, false, false, true, [249, 1, 1]⟩] = .error (.bugcheck 183) := by
      decide +kernel
    have read := ((decoded.next first).2.next second).1 true
    rw [misread] at read
    cases read
  · have first : step (freshChain 1 eightBytes [1, 2, 3, 4, 5, 6, 7, 8])
        (.modify 2 false eightBytes [9, 2, 3, 4, 5, 6, 7, 8]) = .ok
          [⟨2, eightBytes, false, true, false, [9, 2, 3, 4, 5, 6, 7, 8]⟩,
            ⟨1, eightBytes, false, false, true, [1, 1, 249]⟩] := by decide +kernel
    have second : step
        [⟨2, eightBytes, false, true, false, [9, 2, 3, 4, 5, 6, 7, 8]⟩,
          ⟨1, eightBytes, false, false, true, [1, 1, 249]⟩]
        (.modify 3 false threeBytes [9, 2, 3]) = .ok
          [⟨3, threeBytes, false, true, false, [9, 2, 3]⟩,
            ⟨2, eightBytes, false, true, true, [253, 5, 4, 5, 6, 7, 8]⟩,
            ⟨1, eightBytes, false, false, true, [1, 1, 249]⟩] := by decide +kernel
    have misread : readVersions false none false
        [⟨3, threeBytes, false, true, false, [9, 2, 3]⟩,
          ⟨2, eightBytes, false, true, true, [253, 5, 4, 5, 6, 7, 8]⟩,
          ⟨1, eightBytes, false, false, true, [1, 1, 249]⟩] =
        .ok [some [9, 2, 3], some [9, 2, 3, 4, 5, 6, 7, 8], some [1, 2, 3, 0, 0, 0, 0, 0]] := by
      decide +kernel
    have read := ((decoded.next first).2.next second).1 false
    rw [misread] at read
    exact absurd read (by decide)

end Examples

end BackVersions
end Firebird
