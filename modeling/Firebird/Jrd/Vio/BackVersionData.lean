import Firebird.Jrd.Vio.BackVersion

/-!
# What a chain of versions stands for

A record has a history of contents, from the current one back.  A chain stands for a history if every
version is stored whole, or as differences that turn the content of the version above into its own.
Reading such a chain version by version gives the history: always if all versions are read into one
record, and else if no record in the middle of a row of differences is longer than the one above.
-/

namespace Firebird
namespace BackVersions

open Compressor (maxDifferences makeDiff makeNoDiff applyDiff)

/-! ## Histories -/

/-- A version as it was when it was the current one, without content if the record was deleted. -/
structure Entry where
  transaction : Nat
  format : Format
  content : Option (List UInt8)
  deriving DecidableEq, Repr

/-- The history after an event. -/
def history : List Entry → Event → List Entry
  | [], _ => []
  | current :: past, .modify number system format data =>
      if current.content.isNone then current :: past
      else if system ∨ (current.transaction = number ∧ current.format = format) then
        { current with format, content := some data } :: past
      else { transaction := number, format, content := some data } :: current :: past
  | current :: past, .writelock number format copied =>
      if current.content.isNone ∨ current.transaction = number then current :: past
      else
        { transaction := number, format
          content := if format ≠ current.format then some copied else current.content } ::
            current :: past
  | current :: past, .erase number _ =>
      if current.content.isNone then current :: past
      else if current.transaction = number then { current with content := none } :: past
      else { transaction := number, format := current.format, content := none } :: current :: past
  | current :: past, .undo _ data => { current with content := some data } :: past
  | current :: past, .backout _ purged =>
      if purged ∧ current.content.isSome then past.take 1 else past
  | current :: past, .purge position => (current :: past).take (position + 1)
  | current :: past, .expunge => if current.content.isNone then [] else current :: past

/-! ## Chains and histories -/

/-- The stored bytes give the content, on top of the content of the version above if they are
differences to it. -/
def Gives (above : Option (List UInt8)) (bytes content : List UInt8) : Prop :=
  match above with
  | none => bytes = content
  | some base =>
      bytes.length ≤ maxDifferences ∧ ∀ area : List UInt8, area.length = content.length →
        base.take content.length <+: area → applyDiff bytes area = .ok (content, content.length)

/-- Back versions with their part of the history, given the content that the first is a difference
to. -/
inductive Behind : Option (List UInt8) → List Stored → List Entry → Prop where
  | nil : Behind none [] []
  | back {above : Option (List UInt8)} {version : Stored} {older : List Stored}
      {content : List UInt8} {past : List Entry} (live : version.deleted = false)
      (chained : version.chained = true) (length : content.length = version.format.fmt_length)
      (gives : Gives above version.bytes content)
      (later : Behind (if version.isPrior older then some content else none) older past) :
      Behind above (version :: older)
        ({ transaction := version.rpb_transaction_nr, format := version.format,
           content := some content } :: past)

/-- A chain with its history. -/
inductive Encodes : List Stored → List Entry → Prop where
  | gone : Encodes [] []
  | deleted {version : Stored} {older : List Stored} {past : List Entry}
      (deleted : version.deleted = true) (whole : version.delta = false)
      (primary : version.chained = false) (later : Behind none older past) :
      Encodes (version :: older)
        ({ transaction := version.rpb_transaction_nr, format := version.format, content := none } ::
          past)
  | live {version : Stored} {older : List Stored} {past : List Entry}
      (live : version.deleted = false) (primary : version.chained = false)
      (length : version.bytes.length = version.format.fmt_length)
      (later : Behind (if version.isPrior older then some version.bytes else none) older past) :
      Encodes (version :: older)
        ({ transaction := version.rpb_transaction_nr, format := version.format,
           content := some version.bytes } :: past)

/-- No version that is stored as differences and has differences behind it is longer than the version
above. -/
def Widening (chain : List Stored) : Prop :=
  chain.IsChain fun version back =>
    version.delta = true → back.delta = true → back.format.fmt_length ≤ version.format.fmt_length

/-! ## Reading -/

namespace Record

variable {record prior : Record} {format : Format} {bytes : List UInt8}

/-- The count covers the length of the format. -/
def Full (record : Record) : Prop := record.m_format.fmt_length ≤ record.count

theorem length_data (record : Record) : record.data.length = record.m_format.fmt_length := by
  rw [data, List.length_take, Nat.min_eq_left record.room]

theorem new_full (format : Format) : (new format).Full := Nat.le_refl _

theorem reset_format (record : Record) (format : Format) : (record.reset format).m_format = format := by
  unfold reset
  split
  · assumption
  · rfl

theorem Full.reset (full : record.Full) (format : Format) : (record.reset format).Full := by
  unfold Record.reset
  split
  · exact full
  · exact Nat.le_refl _

theorem reset_new (format : Format) : (new format).reset format = new format := by
  unfold reset
  exact if_pos rfl

theorem write_data (length : bytes.length = record.m_format.fmt_length) :
    (record.write bytes).data = bytes :=
  List.take_left' length

/-- What a record starts with is kept when it is set up for another format. -/
theorem Full.take_prefix_reset (full : record.Full) (format : Format) :
    record.data.take format.fmt_length <+: (record.reset format).data := by
  rw [data, data, reset_format]
  refine List.prefix_take_iff.mpr ⟨?_, List.length_take_le _ _⟩
  unfold Record.reset
  split
  · exact (List.take_prefix _ _).trans (List.take_prefix _ _)
  · dsimp only
    unfold resized
    split
    · rename_i grows
      have front : record.area.take record.m_format.fmt_length <+: record.area.take record.count :=
        List.take_prefix_take_left full
      exact (List.take_prefix _ _).trans (front.trans (List.prefix_append _ _))
    · exact (List.take_prefix _ _).trans (List.take_prefix _ _)

/-- What a record starts with is copied. -/
theorem Full.take_prefix_copy (full : prior.Full) (record : Record) :
    prior.data.take record.m_format.fmt_length <+: (record.copyDataFrom prior).data := by
  refine List.prefix_take_iff.mpr ⟨?_, List.length_take_le _ _⟩
  have front : prior.area.take prior.m_format.fmt_length <+: prior.area.take prior.count :=
    List.take_prefix_take_left full
  exact (List.take_prefix _ _).trans (front.trans (List.prefix_append _ _))

end Record

section Reading

variable {version : Stored} {record : Record} {content : List UInt8}

/-- A version that is stored whole. -/
theorem vioData_whole (record : Record)
    (length : version.bytes.length = version.format.fmt_length) :
    vioData version record .none = .ok ((record.reset version.format).write version.bytes) := by
  unfold vioData
  rw [ite_self]
  dsimp only
  rw [if_neg (by omega), if_neg (by omega)]

/-- A version that is stored as differences, in a record that starts with the data above. -/
theorem vioData_apply {base : List UInt8} (format : record.m_format = version.format)
    (length : content.length = version.format.fmt_length)
    (gives : Gives (some base) version.bytes content)
    (starts : base.take content.length <+: record.data) :
    vioData.apply version record = .ok (record.write content) := by
  obtain ⟨short, applied⟩ := gives
  have area_length : record.data.length = content.length := by
    rw [record.length_data, format, length]
  unfold vioData.apply
  rw [if_neg (by omega), applied record.data area_length starts]
  simp only [bind, Except.bind]
  rw [if_neg (by omega)]
  rfl

theorem ok_bind {α β : Type} (value : α) (next : α → Except Fault β) :
    (Except.ok value >>= next) = next value := rfl

/-- A back version, read into the record of the version above or into one of its own. -/
theorem vioData_back (shared : Bool) {isPrior : Bool} (chained : version.chained = true)
    (length : content.length = version.format.fmt_length)
    (gives : Gives (if isPrior then some record.data else none) version.bytes content)
    (full : shared = true ∨ isPrior = true → record.Full) :
    ∃ after,
      vioData version (if shared then record else Record.new version.format)
          (if isPrior then if shared then .same else .other record else .none) = .ok after ∧
        after.data = content ∧ after.m_format = version.format ∧
        (shared = true ∨ isPrior = false ∨ version.format.fmt_length ≤ record.count →
          after.Full) := by
  cases isPrior with
  | false =>
      simp only [Bool.false_eq_true, if_false] at gives ⊢
      obtain rfl : version.bytes = content := gives
      have format := Record.reset_format (if shared then record else Record.new version.format)
        version.format
      refine ⟨_, vioData_whole _ length, ?_, format, fun _ => ?_⟩
      · refine Record.write_data ?_
        rw [format, length]
      · have before : (if shared then record else Record.new version.format).Full := by
          cases shared with
          | true => exact full (Or.inl rfl)
          | false => exact Record.new_full _
        exact before.reset version.format
  | true =>
      simp only [if_true] at gives ⊢
      have prior_full := full (Or.inr rfl)
      cases shared with
      | true =>
          have format := record.reset_format version.format
          have starts := prior_full.take_prefix_reset version.format
          rw [← length] at starts
          refine ⟨(record.reset version.format).write content, ?_, ?_, format, fun _ => ?_⟩
          · simp only [if_true, vioData, chained]
            exact vioData_apply format length gives starts
          · refine Record.write_data ?_
            rw [format, length]
          · exact prior_full.reset version.format
      | false =>
          have starts := prior_full.take_prefix_copy (Record.new version.format)
          have format : ((Record.new version.format).copyDataFrom record).m_format =
            version.format := rfl
          rw [show (Record.new version.format).m_format.fmt_length = content.length from
            length.symm] at starts
          refine ⟨((Record.new version.format).copyDataFrom record).write content, ?_, ?_, format,
            fun wide => ?_⟩
          · simp only [Bool.false_eq_true, if_false, if_true, vioData, chained, Record.reset_new]
            exact vioData_apply format length gives starts
          · refine Record.write_data ?_
            rw [format, length]
          · exact wide.resolve_left (by simp) |>.resolve_left (by simp)

/-- The versions behind one that has just been read. -/
theorem readVersions_behind (shared : Bool) {above : Option (List UInt8)} {older : List Stored}
    {past : List Entry} (behind : Behind above older past) {isPrior : Bool}
    (above_eq : above = if isPrior then some record.data else none)
    (full : shared = true ∨ isPrior = true → record.Full)
    (widening : shared = false → Widening older ∧ (isPrior = true → ∀ back ∈ older.head?,
      back.delta = true → back.format.fmt_length ≤ record.m_format.fmt_length)) :
    readVersions shared (some record) isPrior older = .ok (past.map Entry.content) := by
  induction behind generalizing record isPrior with
  | nil => rfl
  | @back above version older content past live chained length gives later ih =>
      subst above_eq
      obtain ⟨after, read, data_eq, format, after_full⟩ :=
        vioData_back shared chained length gives full
      have rest := @ih after (version.isPrior older) (by rw [data_eq]) (by
        rintro (together | prior)
        · exact after_full (Or.inl together)
        · cases shared with
          | true => exact after_full (Or.inl rfl)
          | false =>
              cases isPrior with
              | false => exact after_full (Or.inr (Or.inl rfl))
              | true =>
                  have delta : version.delta = true := by
                    simp only [Stored.isPrior, Bool.and_eq_true] at prior
                    exact prior.1
                  have narrow := (widening rfl).2 rfl version rfl delta
                  exact after_full (Or.inr (Or.inr (Nat.le_trans narrow (full (Or.inr rfl))))))
        (fun apart => by
          have chain := (widening apart).1
          refine ⟨List.IsChain.of_cons chain, fun prior back next delta => ?_⟩
          have version_delta : version.delta = true := by
            simp only [Stored.isPrior, Bool.and_eq_true] at prior
            exact prior.1
          rw [format]
          cases older with
          | nil => cases next
          | cons other older =>
              obtain rfl : other = back := Option.some.inj next
              exact (List.isChain_cons_cons.mp chain).1 version_delta delta)
      rw [readVersions, if_neg (by simp [live])]
      dsimp only [Option.getD_some]
      rw [read, ok_bind, rest, ok_bind, data_eq]
      rfl

/-- The first version that is read needs no record of its own kind. -/
theorem readVersions_none (shared : Bool) {older : List Stored} (live : version.deleted = false) :
    readVersions shared none false (version :: older) =
      readVersions shared (some (Record.new version.format)) false (version :: older) := by
  simp only [readVersions, live, Bool.false_eq_true, false_and, if_false, Option.getD_some,
    Option.getD_none]

/-- A chain is read as its history. -/
theorem Encodes.readVersions {chain : List Stored} {past : List Entry} (encodes : Encodes chain past)
    (shared : Bool) (widening : shared = false → Widening chain) :
    BackVersions.readVersions shared none false chain = .ok (past.map Entry.content) := by
  cases encodes with
  | gone => rfl
  | @deleted version older past deleted whole primary later =>
      have rest : BackVersions.readVersions shared none false older =
          .ok (past.map Entry.content) := by
        cases later with
        | nil => rfl
        | @back _ back older content past live chained length gives later =>
            rw [readVersions_none shared live]
            refine readVersions_behind shared (.back live chained length gives later) (by simp)
              (fun _ => Record.new_full _) fun apart => ⟨List.IsChain.of_cons (widening apart), ?_⟩
            rintro ⟨⟩
      rw [BackVersions.readVersions, if_pos ⟨deleted, whole⟩, rest]
      rfl
  | @live version older past live primary length later =>
      have read := vioData_whole (Record.new version.format) length
      have data_eq : (((Record.new version.format).reset version.format).write version.bytes).data =
          version.bytes := by
        refine Record.write_data ?_
        rw [Record.reset_format, length]
      have rest := @readVersions_behind
        (((Record.new version.format).reset version.format).write version.bytes) shared _ older past
        later (version.isPrior older) (by rw [data_eq])
        (fun _ => (Record.new_full version.format).reset version.format) (fun apart => by
          refine ⟨List.IsChain.of_cons (widening apart), fun prior back next delta => ?_⟩
          have version_delta : version.delta = true := by
            simp only [Stored.isPrior, Bool.and_eq_true] at prior
            exact prior.1
          have format : (((Record.new version.format).reset version.format).write
            version.bytes).m_format = version.format := Record.reset_format _ _
          rw [format]
          cases older with
          | nil => cases next
          | cons other older =>
              obtain rfl : other = back := Option.some.inj next
              exact (List.isChain_cons_cons.mp (widening apart)).1 version_delta delta)
      rw [BackVersions.readVersions, if_neg (by simp [live])]
      dsimp only [Option.getD_none]
      rw [ite_self, read, ok_bind, rest, ok_bind, data_eq]
      rfl

end Reading

end BackVersions
end Firebird
