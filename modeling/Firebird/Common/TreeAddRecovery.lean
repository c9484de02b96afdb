import Firebird.Common.TreeAdd
import Mathlib.Data.List.GetD

/-!
# The recovery of an addition

The recovery moves the last elements back and sets their parents again, level by level from the top.
It leaves the linked lists as they are: they go through the pages that it has given back.
-/

namespace Firebird
namespace LinkedTree

variable {Value Key : Type*} [LinearOrder Key] {LeafCount NodeCount : Nat}
  {base tree undone : LinkedTree Value} {allocate : Nat → Option Pointer}

/-! ## One page -/

theorem insert_undone {α : Type*} {data : List α} {count pos : Nat} (full : data.length = count)
    (inside : pos < count) (element : α) :
    ((data.take (count - 1)).insertIdx pos element).eraseIdx pos ++ data[count - 1]?.toList = data := by
  subst full
  rw [List.eraseIdx_insertIdx_self]
  obtain ⟨front, last, rfl⟩ : ∃ front last, data = front ++ [last] :=
    ⟨data.dropLast, data.getLast (List.ne_nil_of_length_pos (by omega)),
      (List.dropLast_append_getLast _).symm⟩
  rw [List.length_append, List.length_singleton, Nat.add_sub_cancel, List.take_left,
    List.getElem?_append_right (Nat.le_refl _), Nat.sub_self]
  rfl

theorem find_le {Element : Type*} (generate : Element → Option Key) (data : List Element) (item : Key) :
    (BePlusTree.find generate data item).2 ≤ data.length :=
  LowerBound.search_le _ _ (Nat.zero_le _)

theorem find_lt {Element : Type*} {generate : Element → Option Key} {data : List Element} {item : Key}
    (found : (BePlusTree.find generate data item).1 = true) :
    (BePlusTree.find generate data item).2 < data.length := by
  by_contra outside
  rw [BePlusTree.find] at found outside
  dsimp only at found outside
  rw [List.getElem?_eq_none (Nat.not_lt.mp outside)] at found
  cases found

theorem findPlace_le (key : Value → Key) (tree : LinkedTree Value) (list node : Pointer) :
    findPlace key tree list node ≤ (tree.nodesOf list).length := by
  rw [findPlace]
  split
  · exact Nat.zero_le _
  · exact find_le _ _ _

theorem nodesOf_eq {page : Pointer} {data : List Pointer} (some_nodes : tree.nodes page = some data) :
    tree.nodesOf page = data := by
  rw [nodesOf, some_nodes]
  rfl

theorem itemsOf_eq {page : Pointer} {data : List Value} (some_items : tree.items page = some data) :
    tree.itemsOf page = data := by
  rw [itemsOf, some_items]
  rfl

/-- The recovery does not touch the linked lists. -/
theorem recover_links (tree : LinkedTree Value) (newNode : Pointer)
    (recovery_map : List (Option Nat)) :
    (tree.recover newNode recovery_map).next = tree.next ∧
      (tree.recover newNode recovery_map).prev = tree.prev ∧
      (tree.recover newNode recovery_map).root = tree.root ∧
      (tree.recover newNode recovery_map).level = tree.level := by
  induction tree, newNode, recovery_map using recover.induct with
  | case1 => exact ⟨rfl, rfl, rfl, rfl⟩
  | case2 => exact ⟨rfl, rfl, rfl, rfl⟩
  | case3 => exact ⟨rfl, rfl, rfl, rfl⟩
  | case4 tree newNode entry recovery_map ih =>
      rw [recover]
      exact ih
  | case5 tree newNode pos entry recovery_map prev first lower ih =>
      rw [recover]
      exact ih

/-! ## One split -/

/-- What a split of a `NodeList` does to the pages and the links of the tree. -/
structure SplitsNodes (tree split : LinkedTree Value) (newNode nodeList newList : Pointer)
    (moved : List Pointer) : Prop where
  items_eq : split.items = tree.items
  nodes_eq : ∀ page, page ≠ nodeList → page ≠ newList → split.nodes page = tree.nodes page
  parent_eq : ∀ page, page ≠ newNode → page ≠ newList → page ∉ moved →
    split.parent page = tree.parent page
  nodeLevel_eq : ∀ page, page ≠ newNode → split.nodeLevel page = tree.nodeLevel page
  next_eq : ∀ page, page ≠ nodeList → page ≠ newList → split.next page = tree.next page
  prev_eq : ∀ page, page ≠ newList → page ∉ tree.next nodeList → split.prev page = tree.prev page
  prev_new : split.prev newList = some nodeList
  root_eq : split.root = tree.root
  level_eq : split.level = tree.level

theorem setNodeLevel_other {level : Nat} {node page : Pointer} (other : page ≠ node)
    (parent : Option Pointer) :
    (tree.setNodeParentAndLevel node level parent).nodeLevel page = tree.nodeLevel page := by
  rw [setNodeParentAndLevel]
  dsimp only
  split
  · rfl
  · rw [Function.update_of_ne other]

theorem linkBehind_prev (page list other : Pointer) (different : other ≠ page)
    (not_next : other ∉ tree.next list) : (tree.linkBehind page list).prev other = tree.prev other := by
  rw [linkBehind]
  dsimp only
  rw [Function.update_of_ne different]
  cases next_eq : tree.next list with
  | none => rfl
  | some next =>
      exact Function.update_of_ne (fun same => not_next (next_eq.trans (congrArg some same.symm))) _ _

theorem linkBehind_next (page list other : Pointer) (different : other ≠ page)
    (other_list : other ≠ list) : (tree.linkBehind page list).next other = tree.next other := by
  rw [linkBehind]
  dsimp only
  rw [Function.update_of_ne other_list, Function.update_of_ne different]

section SplitNodes

variable {newNode nodeList newList : Pointer} {data : List Pointer} {curLevel pos : Nat}

/-- The node that moves to the new page, unless the node to add goes there. -/
def movedNode (NodeCount : Nat) (data : List Pointer) (pos : Nat) : List Pointer :=
  if pos = NodeCount then [] else [data.getD (NodeCount - 1) 0]

theorem splitNodes_last (last : pos = NodeCount) :
    splitNodes NodeCount tree newNode nodeList newList curLevel pos =
      (((tree.newNodeList newList nodeList).setNodeParentAndLevel newNode curLevel
        (some newList)).setNodes newList [newNode], none) := by
  rw [splitNodes]
  exact if_pos last

theorem splitNodes_inside (some_nodes : tree.nodes nodeList = some data) (other : nodeList ≠ newList)
    (inside : pos ≠ NodeCount) :
    splitNodes NodeCount tree newNode nodeList newList curLevel pos =
      (((((tree.newNodeList newList nodeList).setNodeParent (data.getD (NodeCount - 1) 0)
          (some newList)).setNodes newList [data.getD (NodeCount - 1) 0]).setNodeParentAndLevel newNode
        curLevel (some nodeList)).setNodes nodeList ((data.take (NodeCount - 1)).insertIdx pos newNode),
        some pos) := by
  have data_eq : (tree.newNodeList newList nodeList).nodesOf nodeList = data := by
    rw [nodesOf, newNodeList, setNodes]
    dsimp only
    rw [Function.update_of_ne other]
    exact congrArg (fun found : Option (List Pointer) => found.getD []) some_nodes
  rw [splitNodes]
  dsimp only
  rw [if_neg inside, data_eq]

theorem splitNodes_splits (some_nodes : tree.nodes nodeList = some data) (other : nodeList ≠ newList) :
    SplitsNodes tree (splitNodes NodeCount tree newNode nodeList newList curLevel pos).1 newNode nodeList
      newList (movedNode NodeCount data pos) := by
  rw [movedNode]
  by_cases last : pos = NodeCount
  · rw [splitNodes_last last, if_pos last]
    refine ⟨rfl, fun page not_list not_new => ?_, fun page not_node not_new _ => ?_,
      fun page not_node => setNodeLevel_other not_node (some newList), fun page not_list not_new => ?_,
      fun page not_new not_next => linkBehind_prev _ _ _ not_new not_next, ?_, rfl, rfl⟩
    · exact (Function.update_of_ne not_new _ _).trans (Function.update_of_ne not_new _ _)
    · exact (Function.update_of_ne not_node _ _).trans (Function.update_of_ne not_new _ _)
    · exact linkBehind_next _ _ _ not_new not_list
    · exact Function.update_self _ _ _
  · rw [splitNodes_inside some_nodes other last, if_neg last]
    refine ⟨rfl, fun page not_list not_new => ?_, fun page not_node not_new not_moved => ?_,
      fun page not_node => setNodeLevel_other not_node (some nodeList), fun page not_list not_new => ?_,
      fun page not_new not_next => linkBehind_prev _ _ _ not_new not_next, ?_, rfl, rfl⟩
    · exact (Function.update_of_ne not_list _ _).trans
        ((Function.update_of_ne not_new _ _).trans (Function.update_of_ne not_new _ _))
    · exact (Function.update_of_ne not_node _ _).trans
        ((Function.update_of_ne (fun same => not_moved (List.mem_singleton.mpr same)) _ _).trans
          (Function.update_of_ne not_new _ _))
    · exact linkBehind_next _ _ _ not_new not_list
    · exact Function.update_self _ _ _

/-- The recovery of one level leads back to the tree before the split. -/
theorem recover_splitNodes {old : Pointer → Prop} {entry : Option Nat} {rest : List (Option Nat)}
    (some_nodes : tree.nodes nodeList = some data) (full : data.length = NodeCount)
    (pos_le : pos ≤ NodeCount) (other : nodeList ≠ newList)
    (blank : tree.items newList = none ∧ tree.nodes newList = none)
    (new_list : ¬ old newList) (new_node : ¬ old newNode)
    (children : ∀ child ∈ data, tree.parent child = some nodeList)
    (same : SamePages old (splitNodes NodeCount tree newNode nodeList newList curLevel pos).1 undone)
    (prev_eq : undone.prev newList = some nodeList) :
    ∃ before, undone.recover newList
        ((splitNodes NodeCount tree newNode nodeList newList curLevel pos).2 :: entry :: rest) =
          before.recover newNode (entry :: rest) ∧
      SamePages old tree before ∧ before.prev = undone.prev := by
  have splits := @splitNodes_splits _ NodeCount tree newNode nodeList newList data curLevel pos some_nodes
    other
  have new_ne : ∀ page, old page → page ≠ newNode ∧ page ≠ newList :=
    fun page is_old => ⟨fun same => new_node (same ▸ is_old), fun same => new_list (same ▸ is_old)⟩
  have items_back : Function.update undone.items newList none = tree.items := by
    rw [same.items_eq, splits.items_eq, Function.update_eq_self_iff]
    exact blank.1.symm
  by_cases last : pos = NodeCount
  · have split_eq := @splitNodes_last _ NodeCount tree newNode nodeList newList curLevel pos last
    have moved_eq : movedNode NodeCount data pos = [] := if_pos last
    rw [moved_eq] at splits
    have nodes_new : undone.nodesOf newList = [newNode] := nodesOf_eq (by
      rw [same.nodes_eq, split_eq]
      exact Function.update_self _ _ _)
    refine ⟨undone.deallocate newList, ?_, ⟨items_back, ?_, fun page is_old => ?_,
      fun page is_old => ?_⟩, rfl⟩
    · rw [split_eq, recover, nodes_new]
      rfl
    · funext page
      by_cases is_new : page = newList
      · rw [is_new, blank.2]
        exact Function.update_self _ _ _
      · calc Function.update undone.nodes newList none page
            = undone.nodes page := Function.update_of_ne is_new _ _
          _ = Function.update (Function.update tree.nodes newList (some [])) newList (some [newNode])
              page := by rw [same.nodes_eq, split_eq]; rfl
          _ = tree.nodes page := by
              rw [Function.update_of_ne is_new, Function.update_of_ne is_new]
    · exact (same.parent_eq page is_old).trans
        (splits.parent_eq page (new_ne page is_old).1 (new_ne page is_old).2 List.not_mem_nil)
    · exact (same.nodeLevel_eq page is_old).trans (splits.nodeLevel_eq page (new_ne page is_old).1)
  · have inside : pos < NodeCount := by omega
    have split_eq := @splitNodes_inside _ NodeCount tree newNode nodeList newList data curLevel pos
      some_nodes other last
    have moved_eq : movedNode NodeCount data pos = [data.getD (NodeCount - 1) 0] := if_neg last
    rw [moved_eq] at splits
    have moved_there : NodeCount - 1 < data.length := by omega
    have moved_mem : data.getD (NodeCount - 1) 0 ∈ data := by
      rw [List.getD_eq_getElem _ _ moved_there]
      exact List.getElem_mem _
    have nodes_new : undone.nodesOf newList = [data.getD (NodeCount - 1) 0] := nodesOf_eq (by
      rw [same.nodes_eq, split_eq]
      exact (Function.update_of_ne other.symm _ _).trans (Function.update_self _ _ _))
    have nodes_list : undone.nodesOf nodeList = (data.take (NodeCount - 1)).insertIdx pos newNode :=
      nodesOf_eq (by
        rw [same.nodes_eq, split_eq]
        exact Function.update_self _ _ _)
    have lower_eq : ((data.take (NodeCount - 1)).insertIdx pos newNode).getD pos 0 = newNode := by
      have taken : (data.take (NodeCount - 1)).length = NodeCount - 1 := List.length_take_of_le (by omega)
      have there : pos < ((data.take (NodeCount - 1)).insertIdx pos newNode).length := by
        rw [List.length_insertIdx_of_le_length (by omega)]
        omega
      rw [List.getD_eq_getElem _ _ there, List.getElem_insertIdx_self]
    have data_back : ((data.take (NodeCount - 1)).insertIdx pos newNode).eraseIdx pos ++
        [data.getD (NodeCount - 1) 0] = data := by
      calc ((data.take (NodeCount - 1)).insertIdx pos newNode).eraseIdx pos ++
            [data.getD (NodeCount - 1) 0]
          = ((data.take (NodeCount - 1)).insertIdx pos newNode).eraseIdx pos ++
            data[NodeCount - 1]?.toList := by
              rw [List.getElem?_eq_getElem moved_there, List.getD_eq_getElem _ _ moved_there]
              rfl
        _ = data := insert_undone full inside newNode
    refine ⟨((undone.setNodes nodeList data).setNodeParent (data.getD (NodeCount - 1) 0)
      (some nodeList)).deallocate newList, ?_, ⟨items_back, ?_, fun page is_old => ?_,
      fun page is_old => ?_⟩, rfl⟩
    · rw [split_eq, recover, prev_eq, Option.getD_some, nodes_new, nodes_list, lower_eq,
        List.headD_cons, data_back]
    · funext page
      by_cases is_new : page = newList
      · rw [is_new, blank.2]
        exact Function.update_self _ _ _
      · have removed : Function.update (Function.update undone.nodes nodeList (some data)) newList none
            page = Function.update undone.nodes nodeList (some data) page :=
          Function.update_of_ne is_new _ _
        refine removed.trans ?_
        by_cases is_list : page = nodeList
        · rw [is_list, Function.update_self, some_nodes]
        · rw [Function.update_of_ne is_list, same.nodes_eq, splits.nodes_eq page is_list is_new]
    · by_cases is_moved : page = data.getD (NodeCount - 1) 0
      · rw [is_moved]
        exact (Function.update_self _ _ _).trans (children _ moved_mem).symm
      · exact (Function.update_of_ne is_moved _ _).trans ((same.parent_eq page is_old).trans
          (splits.parent_eq page (new_ne page is_old).1 (new_ne page is_old).2
            (fun member => is_moved (List.mem_singleton.mp member))))
    · exact (same.nodeLevel_eq page is_old).trans (splits.nodeLevel_eq page (new_ne page is_old).1)

end SplitNodes

section SplitItems

variable {leaf newLeaf : Pointer} {data : List Value} {pos : Nat} {item : Value}

theorem splitItems_last (last : pos = LeafCount) :
    splitItems LeafCount tree item leaf newLeaf pos =
      ((tree.newItemList newLeaf leaf).setItems newLeaf [item], none) := by
  rw [splitItems]
  exact if_pos last

theorem splitItems_inside (some_items : tree.items leaf = some data) (other : leaf ≠ newLeaf)
    (inside : pos ≠ LeafCount) :
    splitItems LeafCount tree item leaf newLeaf pos =
      (((tree.newItemList newLeaf leaf).setItems newLeaf data[LeafCount - 1]?.toList).setItems leaf
        ((data.take (LeafCount - 1)).insertIdx pos item), some pos) := by
  have data_eq : (tree.newItemList newLeaf leaf).itemsOf leaf = data :=
    itemsOf_eq ((Function.update_of_ne other _ _).trans some_items)
  rw [splitItems]
  dsimp only
  rw [if_neg inside, data_eq]

/-- What the split of a leaf does to the links of the tree. -/
structure SplitsItems (tree split : LinkedTree Value) (leaf newLeaf : Pointer) : Prop where
  nodes_eq : split.nodes = tree.nodes
  parent_eq : ∀ page, page ≠ newLeaf → split.parent page = tree.parent page
  nodeLevel_eq : split.nodeLevel = tree.nodeLevel
  next_eq : ∀ page, page ≠ leaf → page ≠ newLeaf → split.next page = tree.next page
  next_leaf : split.next leaf = some newLeaf
  prev_new : split.prev newLeaf = some leaf
  items_eq : ∀ page, page ≠ leaf → page ≠ newLeaf → split.items page = tree.items page
  root_eq : split.root = tree.root
  level_eq : split.level = tree.level

theorem splitItems_splits (some_items : tree.items leaf = some data) (other : leaf ≠ newLeaf) :
    SplitsItems tree (splitItems LeafCount tree item leaf newLeaf pos).1 leaf newLeaf := by
  by_cases last : pos = LeafCount
  · rw [splitItems_last last]
    refine ⟨rfl, fun page not_new => Function.update_of_ne not_new _ _, rfl,
      fun page not_list not_new => linkBehind_next _ _ _ not_new not_list, Function.update_self _ _ _,
      Function.update_self _ _ _, fun page not_leaf not_new => ?_, rfl, rfl⟩
    exact (Function.update_of_ne not_new _ _).trans (Function.update_of_ne not_new _ _)
  · rw [splitItems_inside some_items other last]
    refine ⟨rfl, fun page not_new => Function.update_of_ne not_new _ _, rfl,
      fun page not_list not_new => linkBehind_next _ _ _ not_new not_list, Function.update_self _ _ _,
      Function.update_self _ _ _, fun page not_leaf not_new => ?_, rfl, rfl⟩
    exact (Function.update_of_ne not_leaf _ _).trans
      ((Function.update_of_ne not_new _ _).trans (Function.update_of_ne not_new _ _))

/-- The recovery of the lowest level leads back to the tree before the call. -/
theorem recover_splitItems {old : Pointer → Prop} (some_items : tree.items leaf = some data)
    (full : data.length = LeafCount) (pos_le : pos ≤ LeafCount) (other : leaf ≠ newLeaf)
    (blank : tree.items newLeaf = none ∧ tree.nodes newLeaf = none) (new_leaf : ¬ old newLeaf)
    (same : SamePages old (splitItems LeafCount tree item leaf newLeaf pos).1 undone)
    (prev_eq : undone.prev newLeaf = some leaf) :
    SamePages old tree
      (undone.recover newLeaf [(splitItems LeafCount tree item leaf newLeaf pos).2]) := by
  have splits := @splitItems_splits _ LeafCount tree leaf newLeaf data pos item some_items other
  have nodes_back : Function.update undone.nodes newLeaf none = tree.nodes := by
    rw [same.nodes_eq, splits.nodes_eq, Function.update_eq_self_iff]
    exact blank.2.symm
  have parents : ∀ page, old page → undone.parent page = tree.parent page := fun page is_old =>
    (same.parent_eq page is_old).trans
      (splits.parent_eq page fun same => new_leaf (same ▸ is_old))
  have levels : ∀ page, old page → undone.nodeLevel page = tree.nodeLevel page := fun page is_old =>
    (same.nodeLevel_eq page is_old).trans (congrFun splits.nodeLevel_eq page)
  by_cases last : pos = LeafCount
  · have split_eq := @splitItems_last _ LeafCount tree leaf newLeaf pos item last
    rw [split_eq, recover]
    refine ⟨?_, nodes_back, parents, levels⟩
    funext page
    by_cases is_new : page = newLeaf
    · rw [is_new, blank.1]
      exact Function.update_self _ _ _
    · calc Function.update undone.items newLeaf none page
          = undone.items page := Function.update_of_ne is_new _ _
        _ = Function.update (Function.update tree.items newLeaf (some [])) newLeaf (some [item]) page := by
            rw [same.items_eq, split_eq]
            rfl
        _ = tree.items page := by rw [Function.update_of_ne is_new, Function.update_of_ne is_new]
  · have inside : pos < LeafCount := by omega
    have split_eq := @splitItems_inside _ LeafCount tree leaf newLeaf data pos item some_items other last
    have items_new : undone.itemsOf newLeaf = data[LeafCount - 1]?.toList := itemsOf_eq (by
      rw [same.items_eq, split_eq]
      exact (Function.update_of_ne other.symm _ _).trans (Function.update_self _ _ _))
    have items_leaf : undone.itemsOf leaf = (data.take (LeafCount - 1)).insertIdx pos item :=
      itemsOf_eq (by
        rw [same.items_eq, split_eq]
        exact Function.update_self _ _ _)
    have first_eq : data[LeafCount - 1]?.toList[0]?.toList = data[LeafCount - 1]?.toList := by
      cases data[LeafCount - 1]? with
      | none => rfl
      | some value => rfl
    have recovered : undone.recover newLeaf [some pos] =
        (undone.setItems leaf data).deallocate newLeaf := by
      rw [recover, prev_eq, Option.getD_some, items_new, items_leaf, first_eq,
        insert_undone full inside item]
    rw [split_eq, recovered]
    refine ⟨?_, nodes_back, parents, levels⟩
    funext page
    by_cases is_new : page = newLeaf
    · rw [is_new, blank.1]
      exact Function.update_self _ _ _
    · have removed : Function.update (Function.update undone.items leaf (some data)) newLeaf none page =
          Function.update undone.items leaf (some data) page := Function.update_of_ne is_new _ _
      refine removed.trans ?_
      by_cases is_leaf : page = leaf
      · rw [is_leaf, Function.update_self, some_items]
      · rw [Function.update_of_ne is_leaf, same.items_eq, splits.items_eq page is_leaf is_new]

end SplitItems

/-! ## The way up -/

/-- The way up has split the pages below a level, and the recovery leads back. -/
structure Climbing (base : LinkedTree Value) (allocate : Nat → Option Pointer) (leaf newLeaf : Pointer)
    (tree : LinkedTree Value) (newNode : Pointer) (nodeList : Option Pointer)
    (recovery_map : List (Option Nat)) : Prop where
  some_level : recovery_map ≠ []
  length_le : recovery_map.length ≤ base.level + 1
  root_eq : tree.root = base.root
  level_eq : tree.level = base.level
  nodes_above : ∀ page, base.IsPage page → recovery_map.length ≤ base.height page →
    tree.nodes page = base.nodes page
  next_above : ∀ page, base.IsPage page → recovery_map.length ≤ base.height page →
    tree.next page = base.next page
  parent_above : ∀ page, base.IsPage page → recovery_map.length ≤ base.height page + 1 →
    tree.parent page = base.parent page
  next_leaf : tree.next leaf = some newLeaf
  nodeList_page : ∀ list ∈ nodeList, base.IsPage list ∧ base.height list = recovery_map.length
  newNode_new : ∃ index < recovery_map.length, allocate index = some newNode
  blank : ∀ index, recovery_map.length ≤ index → ∀ page ∈ allocate index,
    tree.items page = none ∧ tree.nodes page = none
  recovers : ∀ undone : LinkedTree Value, SamePages base.IsPage tree undone →
    (∀ index < recovery_map.length, ∀ page ∈ allocate index, undone.prev page = tree.prev page) →
    SamePages base.IsPage base (undone.recover newNode recovery_map)

theorem SamePages.refl (old : Pointer → Prop) (tree : LinkedTree Value) : SamePages old tree tree :=
  ⟨rfl, rfl, fun _ _ => rfl, fun _ _ => rfl⟩

theorem IsPage.blank {page : Pointer} (new : ¬ base.IsPage page) :
    base.items page = none ∧ base.nodes page = none :=
  ⟨Option.not_isSome_iff_eq_none.mp fun some_items => new (.inl some_items),
    Option.not_isSome_iff_eq_none.mp fun some_nodes => new (.inr some_nodes)⟩

/-- A page on an upper level is a `NodeList`. -/
theorem nodes_of_height {page : Pointer} (above : 0 < base.height page) :
    ∃ data, base.nodes page = some data := by
  rw [height] at above
  split at above
  · exact Option.isSome_iff_exists.mp ‹_›
  · cases above

section Climb

variable {leaf newLeaf newNode nodeList newList : Pointer} {recovery_map : List (Option Nat)}

/-- One level further up. -/
theorem Climbing.step (formed : WellFormed LeafCount NodeCount base) (fresh : Fresh base allocate)
    (leaf_page : base.IsPage leaf ∧ base.height leaf = 0)
    (climbing : Climbing base allocate leaf newLeaf tree newNode (some nodeList) recovery_map)
    {pos : Nat} (pos_le : pos ≤ NodeCount) (full : ¬ (tree.nodesOf nodeList).length < NodeCount)
    (allocated : allocate recovery_map.length = some newList) :
    let split := splitNodes NodeCount tree newNode nodeList newList (recovery_map.length - 1) pos
    Climbing base allocate leaf newLeaf split.1 newList (split.1.parent nodeList)
      (split.2 :: recovery_map) := by
  intro split
  obtain ⟨list_page, list_height⟩ := climbing.nodeList_page nodeList rfl
  have map_pos : 0 < recovery_map.length := List.length_pos_of_ne_nil climbing.some_level
  obtain ⟨data, base_nodes⟩ := nodes_of_height (by omega : 0 < base.height nodeList)
  have some_nodes : tree.nodes nodeList = some data :=
    (climbing.nodes_above nodeList list_page (by omega)).trans base_nodes
  obtain ⟨nonempty, data_le⟩ := formed.nodes_le nodeList data base_nodes
  rw [nodesOf_eq some_nodes] at full
  have data_full : data.length = NodeCount := by omega
  have children := formed.child_page nodeList data base_nodes
  have new_list : ¬ base.IsPage newList := fresh.new _ newList allocated
  obtain ⟨node_index, node_index_lt, node_allocated⟩ := climbing.newNode_new
  have new_node : ¬ base.IsPage newNode := fresh.new _ newNode node_allocated
  have other : nodeList ≠ newList := fun same => new_list (same ▸ list_page)
  have old_ne_list : ∀ page, base.IsPage page → page ≠ newList :=
    fun page is_page same => new_list (same ▸ is_page)
  have old_ne_node : ∀ page, base.IsPage page → page ≠ newNode :=
    fun page is_page same => new_node (same ▸ is_page)
  have splits := @splitNodes_splits _ NodeCount tree newNode nodeList newList data
    (recovery_map.length - 1) pos some_nodes other
  have moved_child : ∀ page ∈ movedNode NodeCount data pos, page ∈ data := by
    intro page member
    rw [movedNode] at member
    split_ifs at member
    · cases member
    · have there : NodeCount - 1 < data.length := by
        have := List.length_pos_of_ne_nil nonempty
        omega
      rw [List.mem_singleton.mp member, List.getD_eq_getElem _ _ there]
      exact List.getElem_mem _
  have parent_list : split.1.parent nodeList = base.parent nodeList := by
    have not_moved : nodeList ∉ movedNode NodeCount data pos := by
      intro member
      have child_height := (children nodeList (moved_child nodeList member)).2.1
      omega
    exact (splits.parent_eq nodeList (old_ne_node _ list_page) other not_moved).trans
      (climbing.parent_above nodeList list_page (by omega))
  have next_old : ∀ page ∈ tree.next nodeList, base.IsPage page := by
    intro page member
    rw [climbing.next_above nodeList list_page (by omega)] at member
    exact (formed.next_page nodeList list_page page member).1
  constructor
  case some_level => exact List.cons_ne_nil _ _
  case length_le =>
    have height_le := formed.height_le nodeList list_page
    rw [List.length_cons]
    omega
  case root_eq => exact splits.root_eq.trans climbing.root_eq
  case level_eq => exact splits.level_eq.trans climbing.level_eq
  case nodes_above =>
    intro page is_page above
    rw [List.length_cons] at above
    have not_list : page ≠ nodeList := by
      rintro rfl
      omega
    rw [splits.nodes_eq page not_list (old_ne_list page is_page)]
    exact climbing.nodes_above page is_page (by omega)
  case next_above =>
    intro page is_page above
    rw [List.length_cons] at above
    have not_list : page ≠ nodeList := by
      rintro rfl
      omega
    rw [splits.next_eq page not_list (old_ne_list page is_page)]
    exact climbing.next_above page is_page (by omega)
  case parent_above =>
    intro page is_page above
    rw [List.length_cons] at above
    have not_moved : page ∉ movedNode NodeCount data pos := by
      intro member
      have child_height := (children page (moved_child page member)).2.1
      omega
    rw [splits.parent_eq page (old_ne_node page is_page) (old_ne_list page is_page) not_moved]
    exact climbing.parent_above page is_page (by omega)
  case next_leaf =>
    have not_list : leaf ≠ nodeList := by
      rintro rfl
      omega
    rw [splits.next_eq leaf not_list (old_ne_list leaf leaf_page.1)]
    exact climbing.next_leaf
  case nodeList_page =>
    intro list member
    rw [parent_list] at member
    obtain ⟨is_page, height_eq⟩ := formed.parent_page nodeList list_page list member
    exact ⟨is_page, by rw [height_eq, list_height, List.length_cons]⟩
  case newNode_new => exact ⟨recovery_map.length, by rw [List.length_cons]; omega, allocated⟩
  case blank =>
    intro index index_le page member
    rw [List.length_cons] at index_le
    have not_new : page ≠ newList := by
      rintro rfl
      have := fresh.different index recovery_map.length page member allocated
      omega
    have not_list : page ≠ nodeList := fun same => fresh.new index page member (same ▸ list_page)
    rw [splits.items_eq, splits.nodes_eq page not_list not_new]
    exact climbing.blank index (by omega) page member
  case recovers =>
    intro undone same prev_eq
    have prev_new : undone.prev newList = some nodeList :=
      (prev_eq recovery_map.length (by rw [List.length_cons]; omega) newList allocated).trans
        splits.prev_new
    obtain ⟨entry, rest, map_eq⟩ := List.exists_cons_of_ne_nil climbing.some_level
    obtain ⟨before, recover_eq, same_before, before_prev⟩ :=
      @recover_splitNodes _ NodeCount _ _ _ _ _ _ _ _ _ entry rest some_nodes data_full pos_le other
        (climbing.blank _ (Nat.le_refl _) newList allocated) new_list new_node
        (fun child member => (climbing.parent_above child (children child member).1 (by
          have child_height := (children child member).2.1
          omega)).trans (children child member).2.2) same prev_new
    rw [← map_eq] at recover_eq
    rw [recover_eq]
    refine climbing.recovers before same_before fun index index_lt page member => ?_
    rw [before_prev, prev_eq index (by rw [List.length_cons]; omega) page member]
    refine splits.prev_eq page ?_ fun is_next => fresh.new index page member (next_old page is_next)
    rintro rfl
    have := fresh.different index recovery_map.length page member allocated
    omega

/-- What is left of a call that threw behind its first allocation. -/
structure Thrown (base after : LinkedTree Value) (leaf newLeaf : Pointer) : Prop where
  unmoved : Unmoved base after
  next_leaf : after.next leaf = some newLeaf

theorem Climbing.recovered {list : Option Pointer}
    (climbing : Climbing base allocate leaf newLeaf tree newNode list recovery_map) :
    Thrown base (tree.recover newNode recovery_map) leaf newLeaf := by
  obtain ⟨next_eq, -, root_eq, level_eq⟩ := recover_links tree newNode recovery_map
  refine ⟨⟨?_, root_eq.trans climbing.root_eq, level_eq.trans climbing.level_eq⟩, ?_⟩
  · exact climbing.recovers tree (SamePages.refl _ tree) fun _ _ _ _ => rfl
  · rw [next_eq]
    exact climbing.next_leaf

/-- The way up ends, and if it throws then everything but the linked lists is as before the call. -/
theorem climb_thrown (formed : WellFormed LeafCount NodeCount base) (fresh : Fresh base allocate)
    (leaf_page : base.IsPage leaf ∧ base.height leaf = 0) (key : Value → Key) (fuel : Nat)
    {tree : LinkedTree Value} {newNode : Pointer} {list : Option Pointer}
    {recovery_map : List (Option Nat)}
    (climbing : Climbing base allocate leaf newLeaf tree newNode list recovery_map)
    (enough : base.level + 2 ≤ fuel + recovery_map.length) :
    ∃ result, climb NodeCount key allocate fuel tree newNode list recovery_map = some result ∧
      ∀ after, result = .thrown after → Thrown base after leaf newLeaf := by
  induction fuel generalizing tree newNode list recovery_map with
  | zero =>
      have := climbing.length_le
      omega
  | succ fuel ih =>
      cases list with
      | none =>
          rw [climb]
          cases allocate recovery_map.length with
          | none =>
              refine ⟨_, rfl, fun after thrown => ?_⟩
              cases thrown
              exact climbing.recovered
          | some page => exact ⟨_, rfl, nofun⟩
      | some nodeList =>
          rw [climb]
          dsimp only
          by_cases space : (tree.nodesOf nodeList).length < NodeCount
          · rw [if_pos space]
            exact ⟨_, rfl, nofun⟩
          · rw [if_neg space]
            have pos_le : findPlace key tree nodeList newNode ≤ NodeCount := by
              obtain ⟨list_page, list_height⟩ := climbing.nodeList_page nodeList rfl
              have map_pos : 0 < recovery_map.length := List.length_pos_of_ne_nil climbing.some_level
              obtain ⟨data, base_nodes⟩ := nodes_of_height (by omega : 0 < base.height nodeList)
              have some_nodes : tree.nodes nodeList = some data :=
                (climbing.nodes_above nodeList list_page (by omega)).trans base_nodes
              have place_le := findPlace_le key tree nodeList newNode
              rw [nodesOf_eq some_nodes] at place_le
              exact place_le.trans (formed.nodes_le nodeList data base_nodes).2
            cases shiftNodes NodeCount tree newNode nodeList (recovery_map.length - 1)
                (findPlace key tree nodeList newNode) with
            | some shifted => exact ⟨_, rfl, nofun⟩
            | none =>
                cases allocated : allocate recovery_map.length with
                | none =>
                    refine ⟨_, rfl, fun after thrown => ?_⟩
                    cases thrown
                    exact climbing.recovered
                | some newList =>
                    exact ih (climbing.step formed fresh leaf_page pos_le space allocated) (by
                      rw [List.length_cons]
                      omega)

end Climb

/-! ## The whole call -/

theorem height_zero {page : Pointer}
    (is_page : base.IsPage page) (lowest : base.height page = 0) :
    ∃ data, base.items page = some data := by
  rcases is_page with some_items | some_nodes
  · exact Option.isSome_iff_exists.mp some_items
  · rw [height, if_pos some_nodes] at lowest
    cases lowest

/-- The way down ends at a leaf page. -/
theorem findLeaf_page (formed : WellFormed LeafCount NodeCount base) (key : Value → Key) (item : Key)
    (level : Nat) {page : Pointer} (is_page : base.IsPage page) (height_eq : base.height page = level) :
    base.IsPage (base.findLeaf key item level page) ∧
      base.height (base.findLeaf key item level page) = 0 := by
  induction level generalizing page with
  | zero => exact ⟨is_page, height_eq⟩
  | succ level ih =>
      obtain ⟨data, some_nodes⟩ := nodes_of_height (by omega : 0 < base.height page)
      obtain ⟨nonempty, -⟩ := formed.nodes_le page data some_nodes
      have data_pos := List.length_pos_of_ne_nil nonempty
      have descends : ∀ pos < data.length, base.IsPage (data.getD pos 0) ∧
          base.height (data.getD pos 0) = level := by
        intro pos inside
        rw [List.getD_eq_getElem _ _ inside]
        obtain ⟨child_page, child_height, -⟩ :=
          formed.child_page page data some_nodes _ (List.getElem_mem inside)
        exact ⟨child_page, by omega⟩
      rw [findLeaf]
      dsimp only
      rw [nodesOf_eq some_nodes]
      have place_le := find_le (base.generate key (base.nodeLevel page)) data item
      have place_lt := @find_lt Key _ _ (base.generate key (base.nodeLevel page)) data item
      rw [findNode, nodesOf_eq some_nodes]
      by_cases found : (BePlusTree.find (base.generate key (base.nodeLevel page)) data item).1 = true
      · rw [if_pos found]
        obtain ⟨child_page, child_height⟩ := descends _ (place_lt found)
        exact ih child_page child_height
      · rw [if_neg found]
        obtain ⟨child_page, child_height⟩ := descends _ (by omega :
          (BePlusTree.find (base.generate key (base.nodeLevel page)) data item).2 - 1 < data.length)
        exact ih child_page child_height

/-- The way up begins behind the split of a leaf. -/
theorem climbing_of_split (formed : WellFormed LeafCount NodeCount base) (fresh : Fresh base allocate)
    {leaf newLeaf : Pointer} (leaf_page : base.IsPage leaf ∧ base.height leaf = 0) {data : List Value}
    (some_items : base.items leaf = some data) (full : data.length = LeafCount) {pos : Nat}
    (pos_le : pos ≤ LeafCount) (allocated : allocate 0 = some newLeaf) (item : Value) :
    let split := splitItems LeafCount base item leaf newLeaf pos
    Climbing base allocate leaf newLeaf split.1 newLeaf (split.1.parent leaf) [split.2] := by
  intro split
  have new_leaf : ¬ base.IsPage newLeaf := fresh.new 0 newLeaf allocated
  have other : leaf ≠ newLeaf := fun same => new_leaf (same ▸ leaf_page.1)
  have splits := @splitItems_splits _ LeafCount base leaf newLeaf data pos item some_items other
  have old_ne : ∀ page, base.IsPage page → page ≠ newLeaf :=
    fun page is_page same => new_leaf (same ▸ is_page)
  constructor
  case some_level => exact List.cons_ne_nil _ _
  case length_le => exact Nat.succ_le_succ (Nat.zero_le _)
  case root_eq => exact splits.root_eq
  case level_eq => exact splits.level_eq
  case nodes_above => exact fun page _ _ => congrFun splits.nodes_eq page
  case next_above =>
    intro page is_page above
    have not_leaf : page ≠ leaf := by
      rintro rfl
      rw [leaf_page.2] at above
      cases above
    exact splits.next_eq page not_leaf (old_ne page is_page)
  case parent_above => exact fun page is_page _ => splits.parent_eq page (old_ne page is_page)
  case next_leaf => exact splits.next_leaf
  case nodeList_page =>
    intro list member
    rw [splits.parent_eq leaf other] at member
    obtain ⟨is_page, height_eq⟩ := formed.parent_page leaf leaf_page.1 list member
    exact ⟨is_page, by rw [height_eq, leaf_page.2]; rfl⟩
  case newNode_new => exact ⟨0, Nat.one_pos, allocated⟩
  case blank =>
    intro index index_le page member
    have not_new : page ≠ newLeaf := by
      rintro rfl
      have := fresh.different index 0 page member allocated
      rw [this] at index_le
      cases index_le
    have not_leaf : page ≠ leaf := fun same => fresh.new index page member (same ▸ leaf_page.1)
    rw [splits.items_eq page not_leaf not_new, splits.nodes_eq]
    exact IsPage.blank (fresh.new index page member)
  case recovers =>
    intro undone same prev_eq
    exact recover_splitItems some_items full pos_le other (IsPage.blank new_leaf) new_leaf same
      ((prev_eq 0 Nat.one_pos newLeaf allocated).trans splits.prev_new)

/-- `add` below a root. -/
theorem addBelow_restored_iff (formed : WellFormed LeafCount NodeCount base)
    (fresh : Fresh base allocate) (key : Value → Key) {root : Pointer} (root_page : base.IsPage root)
    (root_height : base.height root = base.level) (item : Value) :
    ∃ result, addBelow LeafCount NodeCount key allocate base root item = some result ∧
      ∀ after, result = .thrown after →
        Unmoved base after ∧ (Restored base after ↔ allocate 0 = none) := by
  have leaf_page := findLeaf_page formed key (key item) base.level root_page root_height
  rw [addBelow]
  dsimp only
  generalize base.findLeaf key (key item) base.level root = leaf at leaf_page
  obtain ⟨data, some_items⟩ := height_zero leaf_page.1 leaf_page.2
  have pos_le : (base.findItem key leaf (key item)).2 ≤ data.length := by
    rw [findItem, itemsOf_eq some_items]
    exact find_le _ _ _
  generalize base.findItem key leaf (key item) = place at pos_le
  have data_le := formed.items_le leaf data some_items
  by_cases found : place.1 = true
  · rw [if_pos found]
    exact ⟨_, rfl, nofun⟩
  · rw [if_neg found, itemsOf_eq some_items]
    by_cases space : data.length < LeafCount
    · rw [if_pos space]
      exact ⟨_, rfl, nofun⟩
    · rw [if_neg space]
      cases shiftItems LeafCount base item leaf place.2 with
      | some shifted => exact ⟨_, rfl, nofun⟩
      | none =>
          cases allocated : allocate 0 with
          | none =>
              refine ⟨_, rfl, fun after thrown => ?_⟩
              cases thrown
              have unmoved : Unmoved base base := ⟨SamePages.refl _ base, rfl, rfl⟩
              exact ⟨unmoved, iff_of_true ⟨unmoved, fun _ _ => rfl, fun _ _ => rfl⟩ rfl⟩
          | some newLeaf =>
              have climbing := climbing_of_split formed fresh leaf_page some_items (by omega)
                (by omega : place.2 ≤ LeafCount) allocated item
              obtain ⟨result, climb_eq, left⟩ := climb_thrown formed fresh leaf_page key _ climbing (by
                rw [List.length_singleton, ← climbing.level_eq])
              refine ⟨result, climb_eq, fun after thrown => ?_⟩
              obtain ⟨unmoved, next_leaf⟩ := left after thrown
              refine ⟨unmoved, iff_of_false (fun restored => ?_) nofun⟩
              -- The new page stays behind the leaf page in the list.
              have next_eq := restored.next_eq leaf leaf_page.1
              rw [next_leaf] at next_eq
              exact fresh.new 0 newLeaf allocated
                (formed.next_page leaf leaf_page.1 newLeaf next_eq.symm).1

/-- The first item of a tree. -/
theorem addBelow_new_root (formed : WellFormed LeafCount NodeCount base) (rootless : base.root = none)
    (root : Pointer) (allocate : Nat → Option Pointer) (NodeCount : Nat) (key : Value → Key)
    (item : Value) :
    ∃ after, addBelow LeafCount NodeCount key allocate
      { (base.linkNothing root).setItems root [] with root := some root } root item =
        some (.added after) := by
  have level_eq : base.level = 0 := formed.rootless rootless
  have items_eq : LinkedTree.itemsOf
      { (base.linkNothing root).setItems root [] with root := some root } root = [] :=
    itemsOf_eq (Function.update_self _ _ _)
  have leaf_eq : LinkedTree.findLeaf { (base.linkNothing root).setItems root [] with root := some root }
      key (key item) (LinkedTree.level
        { (base.linkNothing root).setItems root [] with root := some root }) root = root := by
    change LinkedTree.findLeaf _ key (key item) base.level root = root
    rw [level_eq]
    rfl
  have find_eq : BePlusTree.find (fun value => some (key value)) [] (key item) = (false, 0) := by
    rw [BePlusTree.find, List.length_nil, LowerBound.search]
    rfl
  rw [addBelow]
  dsimp only
  rw [leaf_eq, findItem, items_eq, find_eq, if_neg Bool.false_ne_true, List.length_nil,
    if_pos formed.some_item]
  exact ⟨_, rfl⟩

/-- When `add` throws, the items, parents and the root are as before, and the linked lists exactly when
it was the first allocation that failed. -/
theorem add_restored_iff (formed : WellFormed LeafCount NodeCount base) (fresh : Fresh base allocate)
    (key : Value → Key) (item : Value) :
    ∃ result, add LeafCount NodeCount key allocate base item = some result ∧
      ∀ after, result = .thrown after →
        Unmoved base after ∧ (Restored base after ↔ allocate 0 = none) := by
  rw [add]
  cases root_eq : base.root with
  | some root =>
      obtain ⟨root_page, root_height⟩ := formed.root_page root root_eq
      exact addBelow_restored_iff formed fresh key root_page root_height item
  | none =>
      cases allocated : allocate 0 with
      | none =>
          refine ⟨_, rfl, fun after thrown => ?_⟩
          cases thrown
          have unmoved : Unmoved base base := ⟨SamePages.refl _ base, rfl, rfl⟩
          exact ⟨unmoved, iff_of_true ⟨unmoved, fun _ _ => rfl, fun _ _ => rfl⟩ rfl⟩
      | some root =>
          -- The new root has space for the item.
          obtain ⟨after, added⟩ := addBelow_new_root formed root_eq root
            (fun index => allocate (index + 1)) NodeCount key item
          exact ⟨_, added, nofun⟩

/-- One full page of items of eight bytes. -/
def fullLeaf : LinkedTree Nat where
  items page := if page = 1 then some (List.range 50) else none
  nodes _ := none
  nodeLevel _ := 0
  parent _ := none
  next _ := none
  prev _ := none
  level := 0
  root := some 1

/-- Only the first allocation succeeds. -/
def onlyFirst : Nat → Option Pointer
  | 0 => some 2
  | _ + 1 => none

theorem fullLeaf_items (page : Pointer) :
    fullLeaf.items page = if page = 1 then some (List.range 50) else none := rfl

theorem fullLeaf_page {page : Pointer} (is_page : fullLeaf.IsPage page) : page = 1 := by
  by_contra other
  rcases is_page with some_items | some_nodes
  · rw [fullLeaf_items, if_neg other] at some_items
    cases some_items
  · cases some_nodes

theorem fullLeaf_wellFormed : WellFormed 50 375 fullLeaf where
  some_item := by decide
  one_kind _ := .inr rfl
  rootless := nofun
  root_page root member := by
    obtain rfl := Option.some.inj member
    exact ⟨.inl rfl, rfl⟩
  height_le _ _ := Nat.le_refl 0
  items_le page data some_items := by
    by_cases first : page = 1
    · rw [fullLeaf_items, if_pos first] at some_items
      rw [← Option.some.inj some_items, List.length_range]
    · rw [fullLeaf_items, if_neg first] at some_items
      cases some_items
  nodes_le := nofun
  child_page := nofun
  parent_page _ _ := nofun
  next_page _ _ := nofun
  prev_page _ _ := nofun

theorem onlyFirst_fresh : Fresh fullLeaf onlyFirst where
  new index page member := by
    cases index with
    | zero =>
        obtain rfl := Option.some.inj member
        exact fun is_page => absurd (fullLeaf_page is_page) (by decide)
    | succ index => cases member
  different first second page member other := by
    cases first with
    | zero =>
        cases second with
        | zero => rfl
        | succ second => cases other
    | succ first => cases member

theorem add_restored_fullLeaf :
    ∃ result, add 50 375 id onlyFirst fullLeaf 50 = some result ∧
      ∀ after, result = .thrown after →
        Unmoved fullLeaf after ∧ (Restored fullLeaf after ↔ onlyFirst 0 = none) :=
  add_restored_iff fullLeaf_wellFormed onlyFirst_fresh id 50

/-- Behind the only page of the tree the list goes on at the page that was given back. -/
theorem add_dangling :
    ∃ after, add 50 375 id onlyFirst fullLeaf 50 = some (.thrown after) ∧
      fullLeaf.next 1 = none ∧ after.next 1 = some 2 ∧ ¬ after.IsPage 2 := by
  have leaf_eq : fullLeaf.findLeaf id (id 50) fullLeaf.level 1 = 1 := rfl
  have find_eq : fullLeaf.findItem id 1 (id 50) = (false, 50) := by decide +kernel
  refine ⟨(splitItems 50 fullLeaf 50 1 2 50).1.recover 2 [none], ?_, rfl, rfl, ?_⟩
  · change addBelow 50 375 id onlyFirst fullLeaf 1 50 = _
    rw [addBelow]
    dsimp only
    rw [leaf_eq, find_eq]
    rfl
  · rintro (some_items | some_nodes)
    · exact absurd some_items Bool.false_ne_true
    · exact absurd some_nodes Bool.false_ne_true

end LinkedTree
end Firebird
