import Firebird.Jrd.Tra.Savepoint
import Firebird.Library.UndoLog

/-!
# The undo log of a savepoint

Read as a log over the records, the actions of a savepoint close into those of the next one as
`rollforward` merges them, and `rollback` leads from the later store to the one the log covers.
-/

namespace Firebird
namespace Savepoints

open UndoLog

namespace RecordBitmap

theorem mem_set {bitmap : RecordBitmap} {number other : Nat} :
    other ∈ set bitmap number ↔ other = number ∨ other ∈ bitmap := by
  unfold set
  split
  · rename_i there
    exact ⟨Or.inr, fun either => either.elim (fun same => same ▸ there) id⟩
  · exact List.mem_orderedInsert _

theorem nodup_set {bitmap : RecordBitmap} {number : Nat} (nodup : bitmap.Nodup) :
    (set bitmap number).Nodup := by
  unfold set
  split
  · exact nodup
  · rename_i absent
    exact (List.perm_orderedInsert _ _ _).nodup_iff.mpr (List.nodup_cons.mpr ⟨absent, nodup⟩)

theorem mem_bitOr {bitmap other : RecordBitmap} {number : Nat} :
    number ∈ bitOr bitmap other ↔ number ∈ bitmap ∨ number ∈ other := by
  induction bitmap generalizing other with
  | nil => simp [bitOr]
  | cons first bitmap inductive_hypothesis =>
      have rest := @inductive_hypothesis (set other first)
      rw [bitOr] at rest
      rw [bitOr, List.foldl_cons, rest, mem_set, List.mem_cons]
      tauto

theorem nodup_bitOr {bitmap other : RecordBitmap} (nodup : other.Nodup) :
    (bitOr bitmap other).Nodup := by
  induction bitmap generalizing other with
  | nil => exact nodup
  | cons first bitmap inductive_hypothesis => exact inductive_hypothesis (nodup_set nodup)

end RecordBitmap

theorem locate_cons (item : UndoItem) (undo : List UndoItem) (number : Nat) :
    locate (item :: undo) number = if item.number = number then some item else locate undo number := by
  by_cases same : item.number = number <;> simp [locate, same]

theorem getAction_cons (action : VerbAction) (actions : List VerbAction) (relation : Nat) :
    getAction (action :: actions) relation =
      if action.relation = relation then some action else getAction actions relation := by
  by_cases same : action.relation = relation <;> simp [getAction, same]

theorem getAction_mem {actions : List VerbAction} {relation : Nat} {action : VerbAction}
    (found : getAction actions relation = some action) :
    action ∈ actions ∧ action.relation = relation :=
  ⟨List.mem_of_find?_eq_some found, by simpa using List.find?_some found⟩

theorem getAction_eq_none {actions : List VerbAction} {relation : Nat} :
    getAction actions relation = none ↔ relation ∉ actions.map (·.relation) := by
  simp [getAction]

theorem relations_replaceAction (actions : List VerbAction) (changed : VerbAction) :
    (replaceAction actions changed).map (·.relation) = actions.map (·.relation) := by
  rw [replaceAction, List.map_map]
  refine List.map_congr_left fun action _ => ?_
  dsimp only [Function.comp_apply]
  split
  · rename_i same
    exact same.symm
  · rfl

theorem getAction_replaceAction (actions : List VerbAction) (changed : VerbAction)
    (relation : Nat) :
    getAction (replaceAction actions changed) relation =
      if changed.relation = relation then (getAction actions relation).map fun _ => changed
      else getAction actions relation := by
  induction actions with
  | nil => simp [replaceAction, getAction]
  | cons action actions inductive_hypothesis =>
      rw [replaceAction] at inductive_hypothesis
      rw [replaceAction, List.map_cons, getAction_cons, getAction_cons, inductive_hypothesis]
      by_cases same : action.relation = changed.relation
      · rw [if_pos same]
        by_cases here : changed.relation = relation
        · simp [here, same]
        · simp [here, same]
      · rw [if_neg same]
        by_cases here : changed.relation = relation
        · subst here
          simp [same]
        · simp [here]

/-- Every undo item of an action is for a record of its bitmap. -/
structure VerbAction.WellFormed (action : VerbAction) : Prop where
  nodup : action.records.Nodup
  posted : ∀ item ∈ action.undo, item.number ∈ action.records

/-- One well-formed action for each relation. -/
structure WellFormed (actions : List VerbAction) : Prop where
  nodup : (actions.map (·.relation)).Nodup
  action : ∀ action ∈ actions, action.WellFormed

/-- The entry of an action for a record: none when the bit is not set, otherwise the undo item if
there is one. -/
def VerbAction.mark (action : VerbAction) (number : Nat) : Option (Option UndoItem) :=
  if number ∈ action.records then some (locate action.undo number) else none

/-- The entries that the actions of a savepoint make up. -/
def marks (actions : List VerbAction) (key : Nat × Nat) : Option (Option UndoItem) :=
  (getAction actions key.1).bind fun action => action.mark key.2

/-- The log that the actions of a savepoint make up. -/
def log (transaction : Nat) (actions : List VerbAction) : Log (Nat × Nat) (List Version) :=
  fun key => (marks actions key).map fun item chain =>
    (undoRecord transaction item chain).toOption

section Merge

variable {action nextAction : VerbAction} {actions nextActions : List VerbAction}

theorem VerbAction.WellFormed.locate_eq_none (wellFormed : action.WellFormed) {number : Nat}
    (absent : number ∉ action.records) : locate action.undo number = none := by
  refine List.find?_eq_none.mpr fun item mem same => absent ?_
  have number_eq : item.number = number := by simpa using same
  exact number_eq ▸ wellFormed.posted item mem

/-- Items move to the next action for the records it has not touched. -/
theorem locate_moved (records : RecordBitmap) (items undo : List UndoItem) (number : Nat) :
    locate (items.foldl (fun undo item =>
        if item.number ∉ records ∧ locate undo item.number = none then item :: undo else undo)
        undo) number =
      if number ∈ records then locate undo number
      else (locate undo number).or (locate items number) := by
  induction items generalizing undo with
  | nil => simp [locate]
  | cons item items inductive_hypothesis =>
      rw [List.foldl_cons, inductive_hypothesis, locate_cons]
      by_cases touched : number ∈ records
      · rw [if_pos touched, if_pos touched]
        split
        · rename_i moved
          rw [locate_cons, if_neg]
          rintro rfl
          exact moved.1 touched
        · rfl
      · rw [if_neg touched, if_neg touched]
        by_cases same : item.number = number
        · subst same
          cases held : locate undo item.number <;> simp [touched, locate_cons, held]
        · rw [if_neg same]
          split
          · rw [locate_cons, if_neg same]
          · rfl

theorem VerbAction.WellFormed.mergeTo (wellFormed : action.WellFormed)
    (next_wellFormed : nextAction.WellFormed) : (action.mergeTo nextAction).WellFormed := by
  refine ⟨RecordBitmap.nodup_bitOr next_wellFormed.nodup, ?_⟩
  have moved : ∀ (items undo : List UndoItem),
      (∀ item ∈ items, item.number ∈ action.records) →
      (∀ item ∈ undo, item.number ∈ RecordBitmap.bitOr action.records nextAction.records) →
      ∀ item ∈ items.foldl (fun undo item =>
          if item.number ∉ nextAction.records ∧ locate undo item.number = none then item :: undo
          else undo) undo,
        item.number ∈ RecordBitmap.bitOr action.records nextAction.records := by
    intro items
    induction items with
    | nil => exact fun undo _ there => there
    | cons item items inductive_hypothesis =>
        intro undo posted there
        refine inductive_hypothesis _ (fun other mem => posted other (List.mem_cons_of_mem _ mem)) ?_
        dsimp only
        split
        · rw [List.forall_mem_cons]
          exact ⟨RecordBitmap.mem_bitOr.mpr (Or.inl (posted item List.mem_cons_self)), there⟩
        · exact there
  exact moved action.undo nextAction.undo wellFormed.posted fun item mem =>
    RecordBitmap.mem_bitOr.mpr (Or.inr (next_wellFormed.posted item mem))

theorem VerbAction.mark_mergeTo (next_wellFormed : nextAction.WellFormed) (number : Nat) :
    (action.mergeTo nextAction).mark number =
      (nextAction.mark number).or (action.mark number) := by
  simp only [VerbAction.mark, VerbAction.mergeTo, RecordBitmap.mem_bitOr, locate_moved]
  by_cases touched : number ∈ nextAction.records
  · simp [touched]
  · simp [touched, next_wellFormed.locate_eq_none touched]

theorem marks_cons (action : VerbAction) (actions : List VerbAction) (key : Nat × Nat) :
    marks (action :: actions) key =
      if action.relation = key.1 then action.mark key.2
      else marks actions key := by
  rw [marks, getAction_cons]
  split <;> rfl

theorem marks_of_notMem {key : Nat × Nat} (absent : key.1 ∉ actions.map (·.relation)) :
    marks actions key = none := by
  rw [marks, getAction_eq_none.mpr absent]
  rfl

theorem WellFormed.replaceAction (wellFormed : WellFormed actions)
    (changed : action.WellFormed) : WellFormed (replaceAction actions action) := by
  refine ⟨relations_replaceAction actions action ▸ wellFormed.nodup, fun other mem => ?_⟩
  obtain ⟨before, there, rfl⟩ := List.mem_map.mp mem
  split
  · exact changed
  · exact wellFormed.action before there

theorem WellFormed.cons (wellFormed : WellFormed actions) (first : action.WellFormed)
    (absent : getAction actions action.relation = none) : WellFormed (action :: actions) :=
  ⟨List.nodup_cons.mpr ⟨getAction_eq_none.mp absent, wellFormed.nodup⟩,
    List.forall_mem_cons.mpr ⟨first, wellFormed.action⟩⟩

theorem marks_replaceAction {found : VerbAction} {relation : Nat}
    (there : getAction actions relation = some found) (same : action.relation = relation)
    (key : Nat × Nat) :
    marks (replaceAction actions action) key =
      if relation = key.1 then action.mark key.2
      else marks actions key := by
  rw [marks, getAction_replaceAction, same]
  split
  · rename_i here
    rw [← here, there]
    rfl
  · rfl

theorem mergeAction_spec (wellFormed : action.WellFormed)
    (next_wellFormed : WellFormed nextActions) :
    WellFormed (mergeAction nextActions action) ∧
      ∀ key, marks (mergeAction nextActions action) key =
        if action.relation = key.1 then
          (marks nextActions key).or (action.mark key.2)
        else marks nextActions key := by
  cases there : getAction nextActions action.relation with
  | none =>
      simp only [mergeAction, there]
      refine ⟨next_wellFormed.cons wellFormed there, fun key => ?_⟩
      rw [marks_cons]
      split
      · rename_i here
        rw [marks_of_notMem (here ▸ getAction_eq_none.mp there), Option.none_or]
      · rfl
  | some nextAction =>
      obtain ⟨mem, relation_eq⟩ := getAction_mem there
      have next_action := next_wellFormed.action nextAction mem
      have merged_relation : (action.mergeTo nextAction).relation = action.relation := relation_eq
      simp only [mergeAction, there]
      refine ⟨next_wellFormed.replaceAction (wellFormed.mergeTo next_action), fun key => ?_⟩
      rw [marks_replaceAction there merged_relation, VerbAction.mark_mergeTo next_action]
      split
      · rename_i here
        rw [marks, ← here, there]
        rfl
      · rfl

/-- Merging the actions of a savepoint into those of the next one closes its log into that one. -/
theorem mergeActions_spec (wellFormed : WellFormed actions)
    (next_wellFormed : WellFormed nextActions) :
    WellFormed (mergeActions actions nextActions) ∧
      ∀ key, marks (mergeActions actions nextActions) key =
        (marks nextActions key).or (marks actions key) := by
  induction actions generalizing nextActions with
  | nil =>
      refine ⟨next_wellFormed, fun key => ?_⟩
      simp [mergeActions, marks, getAction]
  | cons action actions inductive_hypothesis =>
      obtain ⟨absent, nodup⟩ := List.nodup_cons.mp wellFormed.nodup
      obtain ⟨first, later⟩ := List.forall_mem_cons.mp wellFormed.action
      obtain ⟨merged_wellFormed, merged_marks⟩ :=
        mergeAction_spec first next_wellFormed
      obtain ⟨all_wellFormed, all_marks⟩ := inductive_hypothesis ⟨nodup, later⟩ merged_wellFormed
      refine ⟨all_wellFormed, fun key => (all_marks key).trans ?_⟩
      rw [merged_marks, marks_cons]
      split
      · rename_i here
        have elsewhere : marks actions key = none := marks_of_notMem (here ▸ absent)
        rw [elsewhere, Option.or_none]
      · rfl

end Merge

section Post

variable {action : VerbAction} {savepoint : Savepoint}

theorem VerbAction.WellFormed.post (wellFormed : action.WellFormed) (number : Nat)
    (oldData : OldData) : (action.post number oldData).WellFormed := by
  unfold VerbAction.post
  split
  · exact wellFormed
  · refine ⟨RecordBitmap.nodup_set wellFormed.nodup, fun item mem => ?_⟩
    refine RecordBitmap.mem_set.mpr ?_
    cases oldData with
    | none => exact Or.inr (wellFormed.posted item mem)
    | some old =>
        rcases List.mem_cons.mp mem with rfl | mem
        · exact Or.inl rfl
        · exact Or.inr (wellFormed.posted item mem)

/-- The undo item for a change just posted. -/
def OldData.item (number : Nat) (oldData : OldData) : Option UndoItem :=
  oldData.map fun old => { number, format := old.1, data := old.2 }

theorem VerbAction.mark_post (wellFormed : action.WellFormed) (number : Nat)
    (oldData : OldData) (other : Nat) :
    (action.post number oldData).mark other =
      if other = number then
        (action.mark number).or (some (OldData.item number oldData))
      else action.mark other := by
  by_cases touched : number ∈ action.records
  · simp only [VerbAction.post, if_pos touched]
    split
    · rename_i same
      simp [VerbAction.mark, same, touched]
    · rfl
  · have untouched := wellFormed.locate_eq_none touched
    simp only [VerbAction.post, if_neg touched, VerbAction.mark, RecordBitmap.mem_set]
    by_cases same : other = number
    · subst same
      cases oldData with
      | none =>
          simp only [untouched, true_or, if_true, touched, if_false, Option.none_or]
          rfl
      | some old =>
          simp only [locate_cons, true_or, if_true, touched, if_false, Option.none_or]
          rfl
    · cases oldData with
      | none => simp [same]
      | some old => simp [same, locate_cons, Ne.symm same]

/-- `verb_post` records how a record is taken back unless the savepoint has touched it before. -/
theorem Savepoint.verbPost_spec (wellFormed : WellFormed savepoint.actions)
    (relation number : Nat) (oldData : OldData) :
    WellFormed (savepoint.verbPost relation number oldData).actions ∧
      ∀ key, marks (savepoint.verbPost relation number oldData).actions key =
        if key = (relation, number) then
          (marks savepoint.actions key).or
            (some (OldData.item number oldData))
        else marks savepoint.actions key := by
  cases there : getAction savepoint.actions relation with
  | none =>
      have fresh : VerbAction.WellFormed { relation, records := [], undo := [] } :=
        ⟨List.nodup_nil, fun item mem => nomatch mem⟩
      have relation_eq : VerbAction.relation
          ((VerbAction.mk relation [] []).post number oldData) = relation := by
        unfold VerbAction.post
        split <;> rfl
      simp only [Savepoint.verbPost, there]
      refine ⟨wellFormed.cons (fresh.post number oldData) (relation_eq ▸ there), fun key => ?_⟩
      rw [marks_cons, relation_eq, VerbAction.mark_post fresh]
      obtain ⟨key_relation, key_number⟩ := key
      dsimp only
      by_cases here : relation = key_relation
      · subst here
        rw [if_pos rfl, marks_of_notMem (getAction_eq_none.mp there)]
        simp [VerbAction.mark]
      · rw [if_neg here, if_neg fun same => here (congrArg Prod.fst same).symm]
  | some action =>
      obtain ⟨mem, action_relation⟩ := getAction_mem there
      have action_wellFormed := wellFormed.action action mem
      have relation_eq : (action.post number oldData).relation = relation := by
        rw [← action_relation]
        unfold VerbAction.post
        split <;> rfl
      simp only [Savepoint.verbPost, there]
      refine ⟨wellFormed.replaceAction (action_wellFormed.post number oldData), fun key => ?_⟩
      rw [marks_replaceAction there relation_eq, VerbAction.mark_post action_wellFormed]
      obtain ⟨key_relation, key_number⟩ := key
      dsimp only
      by_cases here : relation = key_relation
      · subst here
        simp [marks, there]
        split <;> rename_i same
        · rw [same]
        · rfl
      · rw [if_neg here, if_neg fun same => here (congrArg Prod.fst same).symm]

end Post

section Undo

variable {transaction : Nat} {action : VerbAction} {actions : List VerbAction} {store : Store}

/-- Undoing an action gives every record of its bitmap the chain it is taken back to. -/
theorem VerbAction.undoAll_eq (wellFormed : action.WellFormed) (target : Nat → List Version)
    (undone : ∀ number ∈ action.records,
      undoRecord transaction (locate action.undo number) (store (action.relation, number)) =
        .ok (target number)) :
    action.undoAll transaction store = .ok fun key =>
      if key.1 = action.relation ∧ key.2 ∈ action.records then target key.2 else store key := by
  obtain ⟨relation, records, undo⟩ := action
  dsimp only [VerbAction.undoAll] at *
  have nodup : records.Nodup := wellFormed.nodup
  clear wellFormed
  induction records generalizing store with
  | nil => simp [pure, Except.pure]
  | cons number records inductive_hypothesis =>
      obtain ⟨absent, nodup⟩ := List.nodup_cons.mp nodup
      have first := undone number List.mem_cons_self
      rw [List.foldlM_cons, first]
      refine (@inductive_hypothesis (Function.update store (relation, number) (target number))
        (fun other mem => ?_) nodup).trans ?_
      · have differ : (relation, other) ≠ (relation, number) := by
          rintro ⟨⟩
          exact absent mem
        rw [Function.update_of_ne differ]
        exact undone other (List.mem_cons_of_mem _ mem)
      · congr 1
        funext key
        obtain ⟨key_relation, key_number⟩ := key
        dsimp only
        by_cases same : key_relation = relation ∧ key_number = number
        · obtain ⟨rfl, rfl⟩ := same
          simp [absent]
        · have differ : (key_relation, key_number) ≠ (relation, number) := by
            simpa using same
          rw [Function.update_of_ne differ]
          simp only [List.mem_cons]
          refine if_congr ?_ rfl rfl
          tauto

/-- `undoRecord` succeeds where the undo function does, with its result. -/
theorem undoRecord_eq_ok {item : Option UndoItem} {chain back : List Version}
    (undoes : (undoRecord transaction item chain).toOption = some back) :
    undoRecord transaction item chain = .ok back := by
  cases result : undoRecord transaction item chain with
  | error fault =>
      rw [result] at undoes
      cases undoes
  | ok value =>
      rw [result] at undoes
      exact congrArg Except.ok (Option.some.inj undoes)

/-- Rolling back leads to the store that the log covers. -/
theorem rollback_eq {before : Store} (wellFormed : WellFormed actions)
    (covers : Covers (log transaction actions) before store) :
    actions.foldlM (fun store action => action.undoAll transaction store) store =
      .ok before := by
  induction actions generalizing store with
  | nil =>
      have same : store = before := funext fun key => covers.of_none rfl
      rw [same]
      rfl
  | cons action actions inductive_hypothesis =>
      obtain ⟨absent, nodup⟩ := List.nodup_cons.mp wellFormed.nodup
      obtain ⟨first, later⟩ := List.forall_mem_cons.mp wellFormed.action
      have undone : ∀ number ∈ action.records,
          undoRecord transaction (locate action.undo number) (store (action.relation, number)) =
            .ok (before (action.relation, number)) := by
        intro number mem
        have held : log transaction (action :: actions) (action.relation, number) =
            some fun chain =>
              (undoRecord transaction (locate action.undo number) chain).toOption := by
          rw [log, marks_cons, if_pos rfl, VerbAction.mark, if_pos mem]
          rfl
        exact undoRecord_eq_ok (covers.of_some held)
      rw [List.foldlM_cons,
        action.undoAll_eq first (fun number => before (action.relation, number)) undone]
      refine inductive_hypothesis ⟨nodup, later⟩ fun key => ?_
      obtain ⟨relation, number⟩ := key
      have at_key := covers (relation, number)
      rw [log, marks_cons] at at_key
      by_cases here : action.relation = relation
      · subst here
        have elsewhere : marks actions (action.relation, number) = none := marks_of_notMem absent
        rw [log, elsewhere]
        dsimp only at at_key ⊢
        rw [if_pos rfl, VerbAction.mark] at at_key
        by_cases touched : number ∈ action.records
        · simp [touched]
        · simpa [touched] using at_key
      · dsimp only at at_key ⊢
        rw [if_neg here] at at_key
        rw [if_neg fun both => here both.1.symm]
        exact at_key

end Undo

end Savepoints
end Firebird
