import Firebird.Common.BePlusTree
import Mathlib.Logic.Function.Basic

/-!
# Adding to a B+ tree

`BePlusTree::add` on pages in memory: a full page gives its last element to a new page, and the new page
is added to the pages above.  When the allocation of a page fails, the work on all levels is undone.
-/

namespace Firebird

/-- The address of a page. -/
abbrev Pointer := Nat

/-- A tree and its pages in memory, one map for each field of `ItemList` and `NodeList`.  Behind an
address is a page as long as it has items or nodes. -/
structure LinkedTree (Value : Type*) where
  items : Pointer → Option (List Value)
  nodes : Pointer → Option (List Pointer)
  /-- `level` of a `NodeList`. -/
  nodeLevel : Pointer → Nat
  parent : Pointer → Option Pointer
  next : Pointer → Option Pointer
  prev : Pointer → Option Pointer
  level : Nat
  root : Option Pointer

namespace LinkedTree

variable {Value Key : Type*} [LinearOrder Key]

section Pages

variable (tree : LinkedTree Value)

def itemsOf (page : Pointer) : List Value := (tree.items page).getD []

def nodesOf (page : Pointer) : List Pointer := (tree.nodes page).getD []

def setItems (page : Pointer) (data : List Value) : LinkedTree Value :=
  { tree with items := Function.update tree.items page (some data) }

def setNodes (page : Pointer) (data : List Pointer) : LinkedTree Value :=
  { tree with nodes := Function.update tree.nodes page (some data) }

/-- `setNodeParent`. -/
def setNodeParent (node : Pointer) (parent : Option Pointer) : LinkedTree Value :=
  { tree with parent := Function.update tree.parent node parent }

/-- `setNodeParentAndLevel`. -/
def setNodeParentAndLevel (node : Pointer) (level : Nat) (parent : Option Pointer) :
    LinkedTree Value :=
  { tree with
    parent := Function.update tree.parent node parent
    nodeLevel :=
      if level = 0 then tree.nodeLevel else Function.update tree.nodeLevel node (level - 1) }

/-- The constructors add the page to the linked list, behind another one. -/
def linkBehind (page list : Pointer) : LinkedTree Value :=
  { tree with
    parent := Function.update tree.parent page none
    next := Function.update (Function.update tree.next page (tree.next list)) list (some page)
    prev :=
      Function.update
        (match tree.next list with
        | none => tree.prev
        | some next => Function.update tree.prev next (some page))
        page (some list) }

/-- The constructor of `ItemList`. -/
def newItemList (page list : Pointer) : LinkedTree Value := (tree.linkBehind page list).setItems page []

/-- The constructor of `NodeList`. -/
def newNodeList (page list : Pointer) : LinkedTree Value := (tree.linkBehind page list).setNodes page []

/-- The constructor of the first page of a level. -/
def linkNothing (page : Pointer) : LinkedTree Value :=
  { tree with
    parent := Function.update tree.parent page none
    next := Function.update tree.next page none
    prev := Function.update tree.prev page none }

/-- The destructor of a list does nothing; `deallocate` takes its page. -/
def deallocate (page : Pointer) : LinkedTree Value :=
  { tree with
    items := Function.update tree.items page none
    nodes := Function.update tree.nodes page none }

/-- `NodeList::generate`, on a `NodeList` of this level. -/
def generate (key : Value → Key) : Nat → Pointer → Option Key
  | 0, item => (tree.itemsOf item).head?.map key
  | lev + 1, item => (tree.nodesOf item).head?.bind (generate key lev)

/-- `find` in a `NodeList`. -/
def findNode (key : Value → Key) (list : Pointer) (item : Key) : Bool × Nat :=
  BePlusTree.find (tree.generate key (tree.nodeLevel list)) (tree.nodesOf list) item

/-- `find` in an `ItemList`. -/
def findItem (key : Value → Key) (leaf : Pointer) (item : Key) : Bool × Nat :=
  BePlusTree.find (fun value => some (key value)) (tree.itemsOf leaf) item

/-- The way down to the leaf page for an item. -/
def findLeaf (key : Value → Key) (item : Key) : Nat → Pointer → Pointer
  | 0, list => list
  | lev + 1, list =>
      let (found, pos) := tree.findNode key list item
      let pos := if found then pos else pos - 1
      findLeaf key item lev ((tree.nodesOf list).getD pos 0)

end Pages

/-- What `add` ends with; an exception goes on behind the recovery. -/
inductive AddResult (Value : Type*) where
  | found (leaf : Pointer) (pos : Nat)
  | added (tree : LinkedTree Value)
  | thrown (tree : LinkedTree Value)

/-- The recovery; `recovery_map` begins with the current level, and `MAP_NEW_PAGE` is `none`. -/
def recover (tree : LinkedTree Value) (newNode : Pointer) : List (Option Nat) → LinkedTree Value
  | [] => tree
  | [none] => tree.deallocate newNode
  | [some pos] =>
      let prev := (tree.prev newNode).getD 0
      (tree.setItems prev
        ((tree.itemsOf prev).eraseIdx pos ++ (tree.itemsOf newNode)[0]?.toList)).deallocate newNode
  | none :: entry :: recovery_map =>
      recover (tree.deallocate newNode) ((tree.nodesOf newNode).headD 0) (entry :: recovery_map)
  | some pos :: entry :: recovery_map =>
      let prev := (tree.prev newNode).getD 0
      let first := (tree.nodesOf newNode).headD 0
      let lower := (tree.nodesOf prev).getD pos 0
      recover
        (((tree.setNodes prev ((tree.nodesOf prev).eraseIdx pos ++ [first])).setNodeParent first
          (some prev)).deallocate newNode)
        lower (entry :: recovery_map)

section Add

variable (LeafCount NodeCount : Nat) (key : Value → Key) (allocate : Nat → Option Pointer)

/-- The place of a node in a `NodeList`, by its key. -/
def findPlace (tree : LinkedTree Value) (list node : Pointer) : Nat :=
  match tree.generate key (tree.nodeLevel list) node with
  | none => 0
  | some found => (tree.findNode key list found).2

/-- `add` of a node to a `NodeList` with space. -/
def addNode (tree : LinkedTree Value) (list node : Pointer) : LinkedTree Value :=
  tree.setNodes list ((tree.nodesOf list).insertIdx (findPlace key tree list node) node)

/-- A nearby page with space. -/
def nearby (count : Pointer → Nat) (capacity : Nat) (list : Option Pointer) : Option Pointer :=
  list.filter fun list => count list < capacity

/-- A nearby page takes the node, or a node from the end of the full page next to it. -/
def shiftNodes (tree : LinkedTree Value) (newNode nodeList : Pointer) (curLevel pos : Nat) :
    Option (LinkedTree Value) :=
  let data := tree.nodesOf nodeList
  let count list := (tree.nodesOf list).length
  match nearby count NodeCount (tree.next nodeList) with
  | some list =>
      if pos = NodeCount then
        let tree := tree.setNodeParentAndLevel newNode curLevel (some list)
        some (tree.setNodes list (newNode :: tree.nodesOf list))
      else
        let t := data.getD (NodeCount - 1) 0
        let tree := tree.setNodeParent t (some list)
        let tree := tree.setNodes list (t :: tree.nodesOf list)
        let tree := tree.setNodeParentAndLevel newNode curLevel (some nodeList)
        some (tree.setNodes nodeList ((data.take (NodeCount - 1)).insertIdx pos newNode))
  | none =>
      match nearby count NodeCount (tree.prev nodeList) with
      | some list =>
          if pos = 0 then
            let tree := tree.setNodeParentAndLevel newNode curLevel (some list)
            some (tree.setNodes list (tree.nodesOf list ++ [newNode]))
          else
            let t := data.getD 0 0
            let tree := tree.setNodeParent t (some list)
            let tree := tree.setNodes list (tree.nodesOf list ++ [t])
            let tree := tree.setNodeParentAndLevel newNode curLevel (some nodeList)
            some (tree.setNodes nodeList ((data.eraseIdx 0).insertIdx (pos - 1) newNode))
      | none => none

/-- A new page behind a full one takes the node, or the last node of the full page; with the entry of
`recovery_map`. -/
def splitNodes (tree : LinkedTree Value) (newNode nodeList newList : Pointer) (curLevel pos : Nat) :
    LinkedTree Value × Option Nat :=
  let tree := tree.newNodeList newList nodeList
  if pos = NodeCount then
    let tree := tree.setNodeParentAndLevel newNode curLevel (some newList)
    (tree.setNodes newList [newNode], none)
  else
    let data := tree.nodesOf nodeList
    let t := data.getD (NodeCount - 1) 0
    let tree := tree.setNodeParent t (some newList)
    let tree := tree.setNodes newList [t]
    let tree := tree.setNodeParentAndLevel newNode curLevel (some nodeList)
    (tree.setNodes nodeList ((data.take (NodeCount - 1)).insertIdx pos newNode), some pos)

/-- A new root above two pages. -/
def growRoot (tree : LinkedTree Value) (newNode nodeList : Pointer) : LinkedTree Value :=
  let root := tree.root.getD 0
  let tree := tree.linkNothing nodeList
  let tree := { tree with nodeLevel := Function.update tree.nodeLevel nodeList tree.level }
  let tree := tree.setNodes nodeList [root]
  let tree := tree.setNodeParentAndLevel newNode tree.level (some nodeList)
  let tree := tree.setNodeParent root (some nodeList)
  { addNode key tree nodeList newNode with root := some nodeList, level := tree.level + 1 }

/-- The way up with a new page, from a `NodeList` or from above the root. -/
def climb : Nat → LinkedTree Value → Pointer → Option Pointer → List (Option Nat) →
    Option (AddResult Value)
  | 0, _, _, _, _ => none
  | _ + 1, tree, newNode, none, recovery_map =>
      match allocate recovery_map.length with
      | none => some (.thrown (tree.recover newNode recovery_map))
      | some nodeList => some (.added (growRoot key tree newNode nodeList))
  | fuel + 1, tree, newNode, some nodeList, recovery_map =>
      let curLevel := recovery_map.length - 1
      if (tree.nodesOf nodeList).length < NodeCount then
        some (.added (addNode key (tree.setNodeParentAndLevel newNode curLevel (some nodeList)) nodeList
          newNode))
      else
        let pos := findPlace key tree nodeList newNode
        match shiftNodes NodeCount tree newNode nodeList curLevel pos with
        | some tree => some (.added tree)
        | none =>
            match allocate recovery_map.length with
            | none => some (.thrown (tree.recover newNode recovery_map))
            | some newList =>
                let (tree, entry) := splitNodes NodeCount tree newNode nodeList newList curLevel pos
                climb fuel tree newList (tree.parent nodeList) (entry :: recovery_map)

/-- A nearby page takes the item, or an item from the end of the full page next to it. -/
def shiftItems (tree : LinkedTree Value) (item : Value) (leaf : Pointer) (pos : Nat) :
    Option (LinkedTree Value) :=
  let data := tree.itemsOf leaf
  let count list := (tree.itemsOf list).length
  match nearby count LeafCount (tree.next leaf) with
  | some temp =>
      if pos = LeafCount then some (tree.setItems temp (item :: tree.itemsOf temp))
      else
        let tree := tree.setItems temp (data[LeafCount - 1]?.toList ++ tree.itemsOf temp)
        some (tree.setItems leaf ((data.take (LeafCount - 1)).insertIdx pos item))
  | none =>
      match nearby count LeafCount (tree.prev leaf) with
      | some temp =>
          if pos = 0 then some (tree.setItems temp (tree.itemsOf temp ++ [item]))
          else
            let tree := tree.setItems temp (tree.itemsOf temp ++ data[0]?.toList)
            some (tree.setItems leaf ((data.eraseIdx 0).insertIdx (pos - 1) item))
      | none => none

/-- A new page behind a full one takes the item, or the last item of the full page; with the entry of
`recovery_map`. -/
def splitItems (tree : LinkedTree Value) (item : Value) (leaf newLeaf : Pointer) (pos : Nat) :
    LinkedTree Value × Option Nat :=
  let tree := tree.newItemList newLeaf leaf
  if pos = LeafCount then (tree.setItems newLeaf [item], none)
  else
    let data := tree.itemsOf leaf
    let tree := tree.setItems newLeaf data[LeafCount - 1]?.toList
    (tree.setItems leaf ((data.take (LeafCount - 1)).insertIdx pos item), some pos)

/-- `add` below a root. -/
def addBelow (tree : LinkedTree Value) (root : Pointer) (item : Value) : Option (AddResult Value) :=
  let leaf := tree.findLeaf key (key item) tree.level root
  let (found, pos) := tree.findItem key leaf (key item)
  if found then some (.found leaf pos)
  else if (tree.itemsOf leaf).length < LeafCount then
    some (.added (tree.setItems leaf ((tree.itemsOf leaf).insertIdx pos item)))
  else
    match shiftItems LeafCount tree item leaf pos with
    | some tree => some (.added tree)
    | none =>
        match allocate 0 with
        | none => some (.thrown tree)
        | some newLeaf =>
            let (tree, entry) := splitItems LeafCount tree item leaf newLeaf pos
            climb NodeCount key allocate (tree.level + 1) tree newLeaf (tree.parent leaf) [entry]

/-- `add`, where `allocate` gives the pages or fails. -/
def add (tree : LinkedTree Value) (item : Value) : Option (AddResult Value) :=
  match tree.root with
  | some root => addBelow LeafCount NodeCount key allocate tree root item
  | none =>
      match allocate 0 with
      | none => some (.thrown tree)
      | some root =>
          addBelow LeafCount NodeCount key (fun index => allocate (index + 1))
            { (tree.linkNothing root).setItems root [] with root := some root } root item

end Add

section Shape

/-- Behind the address is a page. -/
def IsPage (tree : LinkedTree Value) (page : Pointer) : Prop :=
  (tree.items page).isSome ∨ (tree.nodes page).isSome

/-- The levels below a page. -/
def height (tree : LinkedTree Value) (page : Pointer) : Nat :=
  if (tree.nodes page).isSome then tree.nodeLevel page + 1 else 0

/-- The pages of a tree, their parents and their linked lists. -/
structure WellFormed (LeafCount NodeCount : Nat) (tree : LinkedTree Value) : Prop where
  some_item : 0 < LeafCount
  one_kind : ∀ page, tree.items page = none ∨ tree.nodes page = none
  rootless : tree.root = none → tree.level = 0
  root_page : ∀ root ∈ tree.root, tree.IsPage root ∧ tree.height root = tree.level
  height_le : ∀ page, tree.IsPage page → tree.height page ≤ tree.level
  items_le : ∀ page data, tree.items page = some data → data.length ≤ LeafCount
  nodes_le : ∀ page data, tree.nodes page = some data → data ≠ [] ∧ data.length ≤ NodeCount
  child_page : ∀ page data, tree.nodes page = some data → ∀ child ∈ data,
    tree.IsPage child ∧ tree.height child + 1 = tree.height page ∧ tree.parent child = some page
  parent_page : ∀ page, tree.IsPage page → ∀ parent ∈ tree.parent page,
    tree.IsPage parent ∧ tree.height parent = tree.height page + 1
  next_page : ∀ page, tree.IsPage page → ∀ next ∈ tree.next page,
    tree.IsPage next ∧ tree.height next = tree.height page ∧ tree.prev next = some page
  prev_page : ∀ page, tree.IsPage page → ∀ prev ∈ tree.prev page,
    tree.IsPage prev ∧ tree.height prev = tree.height page ∧ tree.next prev = some page

/-- The pages of one call are new, and different from each other. -/
structure Fresh (tree : LinkedTree Value) (allocate : Nat → Option Pointer) : Prop where
  new : ∀ index, ∀ page ∈ allocate index, ¬ tree.IsPage page
  different : ∀ first second, ∀ page ∈ allocate first, page ∈ allocate second → first = second

/-- The pages and what is on them, and the parents and levels of some pages. -/
structure SamePages (old : Pointer → Prop) (before after : LinkedTree Value) : Prop where
  items_eq : after.items = before.items
  nodes_eq : after.nodes = before.nodes
  parent_eq : ∀ page, old page → after.parent page = before.parent page
  nodeLevel_eq : ∀ page, old page → after.nodeLevel page = before.nodeLevel page

/-- The same items, parents and root. -/
structure Unmoved (before after : LinkedTree Value) : Prop where
  pages : SamePages before.IsPage before after
  root_eq : after.root = before.root
  level_eq : after.level = before.level

/-- Nothing has changed, also not in the linked lists. -/
structure Restored (before after : LinkedTree Value) : Prop where
  unmoved : Unmoved before after
  next_eq : ∀ page, before.IsPage page → after.next page = before.next page
  prev_eq : ∀ page, before.IsPage page → after.prev page = before.prev page

end Shape

end LinkedTree
end Firebird
