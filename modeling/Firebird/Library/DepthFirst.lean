import Mathlib.Logic.Relation
import Mathlib.Data.List.Basic
import Mathlib.Data.List.Perm.Basic
import Mathlib.Tactic.Common

/-!
# Searching a graph for a cycle

A depth-first search keeps the nodes of its current path and the nodes it has exhausted.  It stops
at the first edge back to the path.  The exhausted nodes are closed under edges and lie on no cycle,
so a search that ends without an answer has seen every node it can reach, and no cycle among them.
-/

namespace Firebird
namespace DepthFirst

variable {α : Type*}

/-- What a search knows about the nodes of the graph. -/
structure Marks (α : Type*) where
  /-- The nodes between the start and the current node, the last one first. -/
  path : List α
  /-- The nodes whose successors have all been searched. -/
  done : List α

/-- Search a list of nodes one after the other. -/
def searchAll (visit : α → Marks α → Option (Option α × Marks α)) :
    List α → Marks α → Option (Option α × Marks α)
  | [], marks => some (none, marks)
  | node :: nodes, marks =>
      match visit node marks with
      | some (none, marks) => searchAll visit nodes marks
      | other => other

/-- Search from a node for an edge back to the current path; `none` when the fuel runs out. -/
def search [DecidableEq α] (successors : α → List α) : Nat → α → Marks α → Option (Option α × Marks α)
  | 0, _, _ => none
  | fuel + 1, node, marks =>
      if node ∈ marks.done then
        some (none, marks)
      else if node ∈ marks.path then
        some (some node, marks)
      else
        match searchAll (search successors fuel) (successors node)
          { marks with path := node :: marks.path } with
        | some (none, marks) =>
            some (none, { path := marks.path.erase node, done := node :: marks.done })
        | other => other

/-- There is an edge from a node to another one. -/
def Edge (successors : α → List α) (node next : α) : Prop := next ∈ successors node

/-- A node lies on a cycle. -/
def OnCycle (successors : α → List α) (node : α) : Prop :=
  Relation.TransGen (Edge successors) node node

/-- The exhausted nodes lead nowhere else, and to no cycle. -/
structure Exhausted (successors : α → List α) (marks : Marks α) : Prop where
  closed : ∀ node ∈ marks.done, ∀ next ∈ successors node, next ∈ marks.done
  acyclic : ∀ node ∈ marks.done, ¬OnCycle successors node
  disjoint : ∀ node ∈ marks.path, node ∉ marks.done

namespace Exhausted

variable {successors : α → List α} {marks : Marks α} {node next : α}

theorem reaches (exhausted : Exhausted successors marks) (member : node ∈ marks.done)
    (path : Relation.ReflTransGen (Edge successors) node next) : next ∈ marks.done := by
  induction path with
  | refl => exact member
  | tail _ edge ih => exact exhausted.closed _ ih _ edge

theorem push (exhausted : Exhausted successors marks) (fresh : node ∉ marks.done) :
    Exhausted successors { marks with path := node :: marks.path } := by
  refine ⟨exhausted.closed, exhausted.acyclic, fun other member => ?_⟩
  rcases List.mem_cons.mp member with rfl | below
  · exact fresh
  · exact exhausted.disjoint other below

/-- A node joins the exhausted ones once all its successors are among them. -/
theorem finish [DecidableEq α] (exhausted : Exhausted successors marks) (nodup : marks.path.Nodup)
    (fresh : node ∉ marks.done) (successors_done : ∀ next ∈ successors node, next ∈ marks.done) :
    Exhausted successors { path := marks.path.erase node, done := node :: marks.done } := by
  constructor
  case closed =>
      intro other member next edge
      rcases List.mem_cons.mp member with rfl | below
      · exact List.mem_cons_of_mem _ (successors_done next edge)
      · exact List.mem_cons_of_mem _ (exhausted.closed other below next edge)
  case acyclic =>
      intro other member cycle
      rcases List.mem_cons.mp member with rfl | below
      · -- The cycle would leave the node to an exhausted one and come back.
        obtain ⟨next, edge, back⟩ := Relation.TransGen.head'_iff.mp cycle
        exact fresh (exhausted.reaches (successors_done next edge) back)
      · exact exhausted.acyclic other below cycle
  case disjoint =>
      intro other member found
      rcases List.mem_cons.mp found with rfl | below
      · exact nodup.not_mem_erase member
      · exact exhausted.disjoint other (List.mem_of_mem_erase member) below

end Exhausted

theorem searchAll_append (visit : α → Marks α → Option (Option α × Marks α))
    (nodes others : List α) (marks : Marks α) :
    searchAll visit (nodes ++ others) marks =
      match searchAll visit nodes marks with
      | some (none, marks) => searchAll visit others marks
      | other => other := by
  induction nodes generalizing marks with
  | nil => rfl
  | cons node nodes ih =>
      rw [List.cons_append, searchAll, searchAll]
      split
      · exact ih _
      · next stopped =>
          split
          · next middle step => exact absurd step (stopped middle)
          · rfl

/-! ## The path -/

theorem searchAll_path {visit : α → Marks α → Option (Option α × Marks α)}
    (visited : ∀ {node marks after}, visit node marks = some (none, after) →
      after.path = marks.path) (nodes : List α) {marks after : Marks α}
    (run : searchAll visit nodes marks = some (none, after)) : after.path = marks.path := by
  induction nodes generalizing marks with
  | nil =>
      obtain ⟨-, rfl⟩ := Prod.mk.inj (Option.some.inj run)
      rfl
  | cons node nodes ih =>
      rw [searchAll] at run
      split at run
      · next middle step => exact (ih run).trans (visited step)
      · next stopped => exact absurd run (stopped after)

/-- A search that ends without an answer leaves the path as it was. -/
theorem search_path [DecidableEq α] {successors : α → List α} {fuel : Nat} {node : α}
    {marks after : Marks α} (run : search successors fuel node marks = some (none, after)) :
    after.path = marks.path := by
  induction fuel generalizing node marks after with
  | zero => exact absurd run (Option.some_ne_none _).symm
  | succ fuel ih =>
      rw [search] at run
      split at run
      · obtain ⟨-, rfl⟩ := Prod.mk.inj (Option.some.inj run)
        rfl
      split at run
      · exact absurd (Prod.mk.inj (Option.some.inj run)).1 (Option.some_ne_none node)
      split at run
      · next middle step =>
          obtain ⟨-, rfl⟩ := Prod.mk.inj (Option.some.inj run)
          rw [searchAll_path (fun step => ih step) _ step]
          exact List.erase_cons_head _ _
      · next stopped => exact absurd run (stopped after)

/-! ## Correctness -/

/-- Every node of the path leads to the current node. -/
structure Leads (successors : α → List α) (marks : Marks α) (node : α) : Prop where
  nodup : marks.path.Nodup
  leads : ∀ other ∈ marks.path, Relation.TransGen (Edge successors) other node

/-- A search from some nodes that ends without an answer. -/
structure Missed (successors : α → List α) (nodes : List α) (marks after : Marks α) : Prop where
  exhausted : Exhausted successors after
  keeps : ∀ node ∈ marks.done, node ∈ after.done
  covers : ∀ node ∈ nodes, node ∈ after.done

/-- A search from some nodes that ends with an answer. -/
structure Found (successors : α → List α) (nodes : List α) (found : α) : Prop where
  cycle : OnCycle successors found
  reached : ∃ node ∈ nodes, Relation.ReflTransGen (Edge successors) node found

/-- What a search from some nodes finds out. -/
def Outcome (successors : α → List α) (nodes : List α) (marks : Marks α) :
    Option α → Marks α → Prop
  | none, after => Missed successors nodes marks after
  | some found, _ => Found successors nodes found

section Correctness

variable {successors : α → List α}

theorem Found.weaken {nodes others : List α} {found : α} (result : Found successors nodes found)
    (inside : ∀ node ∈ nodes, ∃ other ∈ others,
      Relation.ReflTransGen (Edge successors) other node) : Found successors others found := by
  obtain ⟨node, member, reach⟩ := result.reached
  obtain ⟨other, other_member, before⟩ := inside node member
  exact ⟨result.cycle, other, other_member, before.trans reach⟩

theorem searchAll_outcome {visit : α → Marks α → Option (Option α × Marks α)}
    (visited_path : ∀ {node marks after}, visit node marks = some (none, after) →
      after.path = marks.path)
    (visited : ∀ {node marks answer after}, visit node marks = some (answer, after) →
      Exhausted successors marks → Leads successors marks node →
        Outcome successors [node] marks answer after)
    (nodes : List α) {marks after : Marks α} {answer : Option α}
    (run : searchAll visit nodes marks = some (answer, after))
    (exhausted : Exhausted successors marks)
    (leads : ∀ node ∈ nodes, Leads successors marks node) :
    Outcome successors nodes marks answer after := by
  induction nodes generalizing marks with
  | nil =>
      rw [searchAll] at run
      obtain ⟨rfl, rfl⟩ := Prod.mk.inj (Option.some.inj run)
      exact ⟨exhausted, fun _ member => member,
        fun node member => absurd member List.not_mem_nil⟩
  | cons node nodes ih =>
      rw [searchAll] at run
      have first_leads := leads node List.mem_cons_self
      split at run
      · next middle step =>
          have first : Missed successors [node] marks middle :=
            visited step exhausted first_leads
          have others : ∀ other ∈ nodes, Leads successors middle other := by
            intro other member
            have lead := leads other (List.mem_cons_of_mem _ member)
            exact ⟨visited_path step ▸ lead.nodup, visited_path step ▸ lead.leads⟩
          have rest := ih run first.exhausted others
          cases answer with
          | some found =>
              exact Found.weaken rest fun other member =>
                ⟨other, List.mem_cons_of_mem _ member, .refl⟩
          | none =>
              have rest : Missed successors nodes middle after := rest
              refine ⟨rest.exhausted,
                fun other member => rest.keeps other (first.keeps other member),
                fun other member => ?_⟩
              rcases List.mem_cons.mp member with rfl | later
              · exact rest.keeps other (first.covers other (List.mem_singleton_self other))
              · exact rest.covers other later
      · next stopped =>
          have first := visited run exhausted first_leads
          cases answer with
          | none => exact absurd run (stopped after)
          | some found =>
              exact Found.weaken first fun other member =>
                ⟨node, List.mem_cons_self, List.mem_singleton.mp member ▸ .refl⟩

variable [DecidableEq α]

theorem search_outcome {fuel : Nat} {node : α} {marks after : Marks α} {answer : Option α}
    (run : search successors fuel node marks = some (answer, after))
    (exhausted : Exhausted successors marks) (leads : Leads successors marks node) :
    Outcome successors [node] marks answer after := by
  induction fuel generalizing node marks after answer with
  | zero => exact absurd run (Option.some_ne_none _).symm
  | succ fuel ih =>
      rw [search] at run
      split at run
      · next member =>
          obtain ⟨rfl, rfl⟩ := Prod.mk.inj (Option.some.inj run)
          refine ⟨exhausted, fun _ found => found, fun other found => ?_⟩
          rw [List.mem_singleton.mp found]
          exact member
      split at run
      · next fresh member =>
          obtain ⟨rfl, rfl⟩ := Prod.mk.inj (Option.some.inj run)
          exact ⟨leads.leads node member, node, List.mem_singleton_self node, .refl⟩
      · next fresh off_path =>
          have pushed := exhausted.push fresh
          have nodup : (node :: marks.path).Nodup := List.nodup_cons.mpr ⟨off_path, leads.nodup⟩
          have below : ∀ next ∈ successors node,
              Leads successors { marks with path := node :: marks.path } next := by
            intro next edge
            refine ⟨nodup, fun other member => ?_⟩
            rcases List.mem_cons.mp member with rfl | earlier
            · exact .single edge
            · exact (leads.leads other earlier).tail edge
          split at run
          · next middle step =>
              obtain ⟨rfl, rfl⟩ := Prod.mk.inj (Option.some.inj run)
              have inner : Missed successors (successors node) _ middle :=
                searchAll_outcome search_path (fun step => ih step) (successors node) step pushed below
              have path := searchAll_path search_path _ step
              have fresh_after : node ∉ middle.done := by
                apply inner.exhausted.disjoint
                rw [path]
                exact List.mem_cons_self
              refine ⟨?_, fun other member => ?_, fun other member => ?_⟩
              · exact inner.exhausted.finish (path ▸ nodup) fresh_after inner.covers
              · exact List.mem_cons_of_mem _ (inner.keeps other member)
              · rw [List.mem_singleton.mp member]
                exact List.mem_cons_self
          · next stopped =>
              have inner :=
                searchAll_outcome search_path (fun step => ih step) (successors node) run pushed below
              cases answer with
              | none => exact absurd run (stopped after)
              | some found =>
                  exact Found.weaken inner fun next edge =>
                    ⟨node, List.mem_singleton_self node, .single edge⟩

/-- A search from scratch answers with a node on a cycle that it can reach, and it answers if there
is such a cycle. -/
theorem search_start {fuel : Nat} {node : α} {after : Marks α} {answer : Option α}
    (run : search successors fuel node ⟨[], []⟩ = some (answer, after)) :
    (∀ found, answer = some found → OnCycle successors found ∧
      Relation.ReflTransGen (Edge successors) node found) ∧
    ((∃ other, Relation.ReflTransGen (Edge successors) node other ∧ OnCycle successors other) →
      ∃ found, answer = some found) := by
  have outcome := search_outcome run
    ⟨fun _ member => absurd member List.not_mem_nil, fun _ member => absurd member List.not_mem_nil,
      fun _ member => absurd member List.not_mem_nil⟩
    ⟨List.nodup_nil, fun _ member => absurd member List.not_mem_nil⟩
  cases answer with
  | none =>
      have missed : Missed successors [node] _ after := outcome
      refine ⟨fun found impossible => absurd impossible (Option.some_ne_none found).symm, ?_⟩
      rintro ⟨other, reach, cycle⟩
      have start := missed.covers node (List.mem_singleton_self node)
      exact absurd cycle (missed.exhausted.acyclic other (missed.exhausted.reaches start reach))
  | some found =>
      have result : Found successors [node] found := outcome
      refine ⟨fun other same => ?_, fun _ => ⟨found, rfl⟩⟩
      obtain rfl := Option.some.inj same
      obtain ⟨start, member, reach⟩ := result.reached
      rw [List.mem_singleton.mp member] at reach
      exact ⟨result.cycle, reach⟩

end Correctness

/-! ## Fuel -/

section Fuel

theorem searchAll_isSome {visit : α → Marks α → Option (Option α × Marks α)}
    (visited_path : ∀ {node marks after}, visit node marks = some (none, after) →
      after.path = marks.path) (queue : List α) {marks : Marks α}
    (visited : ∀ node ∈ queue, ∀ current : Marks α, current.path = marks.path →
      (visit node current).isSome) : (searchAll visit queue marks).isSome := by
  induction queue generalizing marks with
  | nil => rfl
  | cons node queue ih =>
      obtain ⟨⟨answer, middle⟩, step⟩ :=
        Option.isSome_iff_exists.mp (visited node List.mem_cons_self marks rfl)
      rw [searchAll, step]
      cases answer with
      | some found => rfl
      | none =>
          apply ih
          intro other member current same
          exact visited other (List.mem_cons_of_mem _ member) current
            (same.trans (visited_path step))

variable [DecidableEq α] {successors : α → List α} {nodes : List α}

/-- The nodes of a finite graph that are not on the path. -/
def offPath (nodes path : List α) : List α := nodes.filter fun node => node ∉ path

theorem offPath_cons_lt {node : α} {path : List α} (member : node ∈ nodes) (fresh : node ∉ path) :
    (offPath nodes (node :: path)).length < (offPath nodes path).length := by
  have sub : (offPath nodes (node :: path)).Sublist (offPath nodes path) := by
    apply List.monotone_filter_right
    intro other outside
    simp only [List.mem_cons, not_or, decide_eq_true_eq] at outside ⊢
    exact outside.2
  apply Nat.lt_of_le_of_ne sub.length_le
  intro same
  have inside : node ∈ offPath nodes path := List.mem_filter.mpr ⟨member, by simpa using fresh⟩
  rw [← sub.eq_of_length same] at inside
  have outside := (List.mem_filter.mp inside).2
  simp at outside

/-- As much fuel as there are nodes off the path, and one more, is enough. -/
theorem search_isSome (closed : ∀ node ∈ nodes, ∀ next ∈ successors node, next ∈ nodes)
    {fuel : Nat} {node : α} {marks : Marks α} (member : node ∈ nodes)
    (enough : (offPath nodes marks.path).length < fuel) :
    (search successors fuel node marks).isSome := by
  induction fuel generalizing node marks with
  | zero => exact absurd enough (Nat.not_lt_zero _)
  | succ fuel ih =>
      rw [search]
      split
      · rfl
      split
      · rfl
      · next fresh off_path =>
          have fewer := offPath_cons_lt member off_path
          have inner : (searchAll (search successors fuel) (successors node)
              { marks with path := node :: marks.path }).isSome := by
            apply searchAll_isSome search_path
            intro next edge current same
            apply ih (closed node member next edge)
            rw [same]
            exact Nat.lt_of_lt_of_le fewer (Nat.le_of_lt_succ enough)
          split
          · rfl
          · exact inner

end Fuel

end DepthFirst
end Firebird
