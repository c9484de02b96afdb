import Mathlib
import Firebird.Library.LowerBound

/-!
# Reading a B+ tree

The accessor of `BePlusTree`: it walks from the root to a page of items, and from there along the list
of these pages.
-/

namespace Firebird

variable {Value Key : Type*} [LinearOrder Key]

namespace BePlusTree

/-- `LocType`. -/
inductive LocType
  | locEqual
  | locLess
  | locLessEqual
  | locGreat
  | locGreatEqual
  deriving DecidableEq, Repr

/-- A page: on level zero an `ItemList`, on other levels a `NodeList` of the pages below. -/
def Page (Value : Type*) : Nat → Type _
  | 0 => List Value
  | level + 1 => List (Page Value level)

/-- `NodeList::generate`: the key of the first item below the page. -/
def generate (key : Value → Key) : (level : Nat) → Page Value level → Option Key
  | 0, items => (List.head? items).map key
  | level + 1, pages => (List.head? pages).bind (generate key level)

/-- The pages of items below a page, in their linked order. -/
def itemLists : (level : Nat) → Page Value level → List (List Value)
  | 0, items => [items]
  | level + 1, pages => List.flatMap (itemLists level) pages

/-- `SortedVector::find`: whether the key is there, and the place where it is or belongs. -/
def find {Element : Type*} (generate : Element → Option Key) (data : List Element) (item : Key) :
    Bool × Nat :=
  let pos := LowerBound.search (fun element => (generate element).any (decide <| · < item)) data 0
    data.length
  ((data[pos]?).any fun element => (generate element).all (decide <| · ≤ item), pos)

/-- The walk of `locate` down to a page of items, as the number of such pages before it. -/
def descend (key : Value → Key) (item : Key) : (level : Nat) → Page Value level → Nat
  | 0, _ => 0
  | level + 1, pages =>
      let pages : List (Page Value level) := pages
      let (found, pos) := find (generate key level) pages item
      let pos := if found then pos else pos - 1
      ((pages.take pos).flatMap (itemLists level)).length +
        match pages[pos]? with
        | none => 0
        | some page => descend key item level page

end BePlusTree

/-- `BePlusTree`; the root is `NULL` before the first item. -/
structure BePlusTree (Value : Type*) where
  level : Nat
  root : Option (BePlusTree.Page Value level)

namespace BePlusTree

/-- `Accessor`: the number of the page of items, unless it is `NULL`, and the position there. -/
structure Accessor where
  curr : Option Nat
  curPos : Nat
  deriving DecidableEq, Repr

variable (tree : BePlusTree Value)

/-- The pages of items, in their linked order. -/
def lists : List (List Value) :=
  match tree.root with
  | none => []
  | some page => itemLists tree.level page

/-- The items of the tree in order. -/
def items : List Value := tree.lists.flatten

/-- The number of items on a page. -/
def getCount (page : Nat) : Nat := ((tree.lists[page]?).getD []).length

/-- `curr->next`. -/
def next (page : Nat) : Option Nat := if page + 1 < tree.lists.length then some (page + 1) else none

/-- `curr->prev`. -/
def prev : Nat → Option Nat
  | 0 => none
  | page + 1 => some page

namespace Accessor

/-- `current`. -/
def current (accessor : Accessor) : Option Value :=
  accessor.curr.bind fun page => (tree.lists[page]?).bind fun items => items[accessor.curPos]?

/-- The position in front of one on the page. -/
def backwards (page curPos : Nat) : Bool × Accessor :=
  if curPos = 0 then
    match prev page with
    | none => (false, ⟨none, 0⟩)
    | some page => (true, ⟨some page, tree.getCount page - 1⟩)
  else (true, ⟨some page, curPos - 1⟩)

/-- The position on the page, or the first one on the next page if it is behind the items. -/
def forwards (page curPos : Nat) : Accessor :=
  if curPos = tree.getCount page then ⟨tree.next page, 0⟩ else ⟨some page, curPos⟩

/-- `locate`. -/
def locate (key : Value → Key) (lt : LocType) (item : Key) : Bool × Accessor :=
  match tree.root with
  | none => (false, ⟨none, 0⟩)
  | some root =>
      let curr := descend key item tree.level root
      let (found, curPos) :=
        find (fun value => some (key value)) ((tree.lists[curr]?).getD []) item
      match lt with
      | .locEqual => (found, ⟨some curr, curPos⟩)
      | .locGreatEqual =>
          let accessor := forwards tree curr curPos
          (found || accessor.curr.isSome, accessor)
      | .locLessEqual => if found then (true, ⟨some curr, curPos⟩) else backwards tree curr curPos
      | .locLess => backwards tree curr curPos
      | .locGreat =>
          let accessor := forwards tree curr (if found then curPos + 1 else curPos)
          (accessor.curr.isSome, accessor)

/-- `getNext`. -/
def getNext (accessor : Accessor) : Bool × Accessor :=
  match accessor.curr with
  | none => (false, accessor)
  | some page =>
      if tree.getCount page ≤ accessor.curPos + 1 then
        match tree.next page with
        | some page => (true, ⟨some page, 0⟩)
        | none => (false, accessor)
      else (true, ⟨some page, accessor.curPos + 1⟩)

/-- `getPrev`. -/
def getPrev (accessor : Accessor) : Bool × Accessor :=
  match accessor.curr with
  | none => (false, accessor)
  | some page =>
      if accessor.curPos = 0 then
        match prev page with
        | some page => (true, ⟨some page, tree.getCount page - 1⟩)
        | none => (false, accessor)
      else (true, ⟨some page, accessor.curPos - 1⟩)

end Accessor

/-- No page below this one is empty. -/
def Filled : (level : Nat) → Page Value level → Prop
  | 0, items => items ≠ ([] : List Value)
  | level + 1, pages => pages ≠ ([] : List (Page Value level)) ∧
      ∀ page ∈ (show List (Page Value level) from pages), Filled level page

/-- The keys increase, and only a root that is a page of items may be empty. -/
structure WellFormed (key : Value → Key) : Prop where
  sorted : tree.items.Pairwise fun first second => key first < key second
  filled : ∀ page, tree.root = some page → tree.level ≠ 0 → Filled tree.level page

/-- The accessor stands on an item, with these items before and behind it. -/
def Accessor.At (accessor : Accessor) (passed : List Value) (value : Value) (ahead : List Value) :
    Prop :=
  ∃ front before behind back, tree.lists = front ++ (before ++ value :: behind) :: back ∧
    accessor = ⟨some front.length, before.length⟩ ∧ passed = front.flatten ++ before ∧
    ahead = behind ++ back.flatten

variable {tree} {accessor : Accessor} {passed ahead : List Value} {value : Value}

theorem Accessor.At.items_eq (at_value : accessor.At tree passed value ahead) :
    tree.items = passed ++ value :: ahead := by
  obtain ⟨front, before, behind, back, lists_eq, -, rfl, rfl⟩ := at_value
  rw [items, lists_eq, List.flatten_append, List.flatten_cons]
  simp only [List.append_assoc, List.cons_append]

theorem Accessor.At.current_eq (at_value : accessor.At tree passed value ahead) :
    accessor.current tree = some value := by
  obtain ⟨front, before, behind, back, lists_eq, rfl, -, -⟩ := at_value
  have page_eq : tree.lists[front.length]? = some (before ++ value :: behind) := by
    rw [lists_eq, List.getElem?_append_right (Nat.le_refl _), Nat.sub_self]
    rfl
  rw [current]
  dsimp only [Option.bind_some]
  rw [page_eq, Option.bind_some, List.getElem?_append_right (Nat.le_refl _), Nat.sub_self]
  rfl

/-- The place that a binary search finds splits the data into smaller keys and the others. -/
theorem find_spec {Element : Type*} {generate : Element → Option Key} {front back : List Element}
    {item : Key} (front_less : ∀ element ∈ front, ∃ key, generate element = some key ∧ key < item)
    (back_ge : ∀ element ∈ back, ∃ key, generate element = some key ∧ item ≤ key) :
    find generate (front ++ back) item =
      (back.head?.any fun element => (generate element).all (decide <| · ≤ item), front.length) := by
  have search_eq := @LowerBound.search_eq _
    (fun element => (generate element).any (decide <| · < item)) front back
    (fun element member => by
      obtain ⟨key, key_eq, less⟩ := front_less element member
      rw [key_eq]
      exact decide_eq_true less)
    (fun element member => by
      obtain ⟨key, key_eq, ge⟩ := back_ge element member
      rw [key_eq]
      exact decide_eq_false (not_lt.mpr ge))
    0 (front ++ back).length (Nat.zero_le _) (by rw [List.length_append]; exact Nat.le_add_right _ _)
  rw [find, search_eq, List.getElem?_append_right (Nat.le_refl _), Nat.sub_self, List.head?_eq_getElem?]

/-- The items below a page. -/
def below (level : Nat) (page : Page Value level) : List Value := (itemLists level page).flatten

theorem below_succ (level : Nat) (pages : List (Page Value level)) :
    below (level + 1) pages = pages.flatMap (below level) := by
  change (pages.flatMap (itemLists level)).flatten = _
  induction pages with
  | nil => rfl
  | cons page pages ih =>
      rw [List.flatMap_cons, List.flatten_append, ih]
      rfl

/-- The key of a page is the key of its first item. -/
theorem generate_eq {Key : Type*} (key : Value → Key) {level : Nat} {page : Page Value level}
    (filled : Filled level page) :
    ∃ value rest, below level page = value :: rest ∧ generate key level page = some (key value) := by
  induction level with
  | zero =>
      obtain ⟨value, rest, rfl⟩ := List.exists_cons_of_ne_nil (show page ≠ ([] : List Value) from filled)
      exact ⟨value, rest, List.append_nil _, rfl⟩
  | succ level ih =>
      obtain ⟨nonempty, all⟩ := filled
      obtain ⟨first, others, rfl⟩ := List.exists_cons_of_ne_nil nonempty
      obtain ⟨value, rest, below_eq, generate_eq⟩ := ih (all first List.mem_cons_self)
      refine ⟨value, rest ++ others.flatMap (below level), ?_, generate_eq⟩
      rw [below_succ, List.flatMap_cons, below_eq, List.cons_append]

/-- The page that `locate` goes down to: smaller keys lie before it or below it, greater ones below it
or behind it. -/
theorem choose_spec {key : Value → Key} {level : Nat} {pages : List (Page Value level)} {item : Key}
    (nonempty : pages ≠ []) (filled : ∀ page ∈ pages, Filled level page)
    (sorted : (pages.flatMap (below level)).Pairwise fun first second => key first < key second) :
    ∃ front page back, pages = front ++ page :: back ∧
      (if (find (generate key level) pages item).1 = true then (find (generate key level) pages item).2
        else (find (generate key level) pages item).2 - 1) = front.length ∧
      (∀ value ∈ front.flatMap (below level), key value < item) ∧
      ∀ value ∈ back.flatMap (below level), item < key value := by
  obtain ⟨within, across⟩ := List.pairwise_flatMap.mp sorted
  have first_of : ∀ page ∈ pages, ∃ first, first ∈ below level page ∧
      generate key level page = some (key first) ∧ ∀ value ∈ below level page, key first ≤ key value := by
    intro page member
    obtain ⟨first, rest, below_eq, generate_eq⟩ := generate_eq key (filled page member)
    have page_sorted := within page member
    rw [below_eq] at page_sorted ⊢
    refine ⟨first, List.mem_cons_self, generate_eq, fun value value_mem => ?_⟩
    rcases List.mem_cons.mp value_mem with rfl | behind
    · exact le_rfl
    · exact ((List.pairwise_cons.mp page_sorted).1 value behind).le
  obtain ⟨front, back, pages_eq, front_less, back_ge⟩ :
      ∃ front back, pages = front ++ back ∧
        (∀ page ∈ front, ∃ found, generate key level page = some found ∧ found < item) ∧
        ∀ page ∈ back, ∃ found, generate key level page = some found ∧ item ≤ found := by
    refine ⟨pages.takeWhile fun page => (generate key level page).any (decide <| · < item),
      pages.dropWhile fun page => (generate key level page).any (decide <| · < item),
      List.takeWhile_append_dropWhile.symm, fun page member => ?_, fun page member => ?_⟩
    · obtain ⟨first, -, generate_eq, -⟩ := first_of page ((List.takeWhile_sublist _).subset member)
      have less := List.mem_takeWhile_imp member
      rw [generate_eq] at less
      exact ⟨key first, generate_eq, of_decide_eq_true less⟩
    · have back_mem : ∀ other ∈
          pages.dropWhile fun page => (generate key level page).any (decide <| · < item),
          other ∈ pages := fun other behind => (List.dropWhile_sublist _).subset behind
      have ends := List.head?_dropWhile_not
        (fun page => (generate key level page).any (decide <| · < item)) pages
      have back_across := across.sublist (List.dropWhile_sublist
        fun page => (generate key level page).any (decide <| · < item))
      generalize pages.dropWhile (fun page => (generate key level page).any (decide <| · < item)) =
        back at member ends back_across back_mem
      cases back with
      | nil => cases member
      | cons head back =>
          obtain ⟨least, least_mem, least_eq, -⟩ := first_of head (back_mem head List.mem_cons_self)
          obtain ⟨first, first_mem, generate_eq, -⟩ := first_of page (back_mem page member)
          have ends : (generate key level head).any (decide <| · < item) = false := ends
          rw [least_eq] at ends
          have least_ge : item ≤ key least := not_lt.mp (of_decide_eq_false ends)
          refine ⟨key first, generate_eq, ?_⟩
          rcases List.mem_cons.mp member with rfl | behind
          · exact least_ge.trans_eq (Option.some.inj (least_eq.symm.trans generate_eq))
          · exact least_ge.trans
              ((List.pairwise_cons.mp back_across).1 page behind least least_mem first first_mem).le
  have find_eq := find_spec front_less back_ge
  rw [← pages_eq] at find_eq
  rw [find_eq]
  dsimp only
  subst pages_eq
  obtain ⟨front_across, back_across, front_back⟩ := List.pairwise_append.mp across
  -- Keys below pages in front of a page are smaller than its first key, keys below pages behind greater.
  have smaller : ∀ (others : List (Page Value level)) (page : Page Value level),
      (∀ other ∈ others, ∀ value ∈ below level other, ∀ first ∈ below level page,
        key value < key first) → (∃ first ∈ below level page, key first ≤ item) →
      ∀ value ∈ others.flatMap (below level), key value < item := by
    rintro others page less ⟨first, first_mem, first_le⟩ value member
    obtain ⟨other, other_mem, value_mem⟩ := List.mem_flatMap.mp member
    exact (less other other_mem value value_mem first first_mem).trans_le first_le
  have greater : ∀ (others : List (Page Value level)) (page : Page Value level),
      (∀ other ∈ others, ∀ first ∈ below level page, ∀ value ∈ below level other,
        key first < key value) → (∃ first ∈ below level page, item ≤ key first) →
      ∀ value ∈ others.flatMap (below level), item < key value := by
    rintro others page less ⟨first, first_mem, first_ge⟩ value member
    obtain ⟨other, other_mem, value_mem⟩ := List.mem_flatMap.mp member
    exact first_ge.trans_lt (less other other_mem first first_mem value value_mem)
  have first_less : ∀ page ∈ front, ∃ first ∈ below level page, key first ≤ item := by
    intro page member
    obtain ⟨first, first_mem, generate_eq, -⟩ := first_of page (List.mem_append_left _ member)
    obtain ⟨found, found_eq, less⟩ := front_less page member
    obtain rfl := Option.some.inj (generate_eq.symm.trans found_eq)
    exact ⟨first, first_mem, less.le⟩
  have last_spec : (∀ value ∈ back.flatMap (below level), item < key value) → front ≠ [] →
      ∃ before page behind, front ++ back = before ++ page :: behind ∧
        front.length - 1 = before.length ∧
        (∀ value ∈ before.flatMap (below level), key value < item) ∧
        ∀ value ∈ behind.flatMap (below level), item < key value := by
    intro back_greater some_front
    obtain ⟨before, page, rfl⟩ : ∃ before page, front = before ++ [page] :=
      ⟨front.dropLast, front.getLast some_front, (List.dropLast_append_getLast some_front).symm⟩
    refine ⟨before, page, back, by rw [List.append_assoc]; rfl, by rw [List.length_append]; rfl, ?_,
      back_greater⟩
    have last_mem : page ∈ before ++ [page] := List.mem_append_right _ List.mem_cons_self
    exact smaller before page
      (fun other member => (List.pairwise_append.mp front_across).2.2 other member page
        List.mem_cons_self) (first_less page last_mem)
  cases back with
  | nil =>
      rw [List.head?_nil, Option.any_none, if_neg Bool.false_ne_true]
      rw [List.append_nil] at nonempty
      exact last_spec nofun nonempty
  | cons page back =>
      have page_mem : page ∈ front ++ page :: back := List.mem_append_right _ List.mem_cons_self
      obtain ⟨first, first_mem, generate_eq, first_le⟩ := first_of page page_mem
      obtain ⟨found, found_eq, first_ge⟩ := back_ge page List.mem_cons_self
      obtain rfl := Option.some.inj (generate_eq.symm.trans found_eq)
      have behind_greater := greater back page
        (fun other member => (List.pairwise_cons.mp back_across).1 other member) ⟨first, first_mem, first_ge⟩
      rw [List.head?_cons, Option.any_some, generate_eq, Option.all_some]
      by_cases same : key first ≤ item
      · rw [if_pos (decide_eq_true same)]
        exact ⟨front, page, back, rfl, rfl,
          smaller front page (fun other member => front_back other member page List.mem_cons_self)
            ⟨first, first_mem, same⟩, behind_greater⟩
      · rw [if_neg (by rwa [decide_eq_true_iff])]
        by_cases none_smaller : front = []
        · subst none_smaller
          exact ⟨[], page, back, rfl, rfl, nofun, behind_greater⟩
        · refine last_spec (fun value member => ?_) none_smaller
          rw [List.flatMap_cons] at member
          rcases List.mem_append.mp member with here | behind
          · exact (not_le.mp same).trans_le (first_le value here)
          · exact behind_greater value behind

theorem descend_spec {key : Value → Key} {level : Nat} {page : Page Value level} {item : Key}
    (filled : level ≠ 0 → Filled level page)
    (sorted : (below level page).Pairwise fun first second => key first < key second) :
    ∃ front list back, itemLists level page = front ++ list :: back ∧
      descend key item level page = front.length ∧
      (∀ value ∈ front.flatten, key value < item) ∧ ∀ value ∈ back.flatten, item < key value := by
  induction level with
  | zero => exact ⟨[], page, [], rfl, rfl, nofun, nofun⟩
  | succ level ih =>
      change List (Page Value level) at page
      obtain ⟨nonempty, all⟩ := filled (Nat.succ_ne_zero level)
      have sorted_pages : (page.flatMap (below level)).Pairwise
          fun first second => key first < key second := below_succ level page ▸ sorted
      obtain ⟨front, chosen, back, pages_eq, pos_eq, less, greater⟩ :=
        @choose_spec _ _ _ key level page item nonempty all sorted_pages
      have chosen_mem : chosen ∈ page := by
        rw [pages_eq]
        exact List.mem_append_right _ List.mem_cons_self
      obtain ⟨before, list, behind, lists_eq, descend_eq, before_less, behind_greater⟩ :=
        @ih chosen (fun _ => all chosen chosen_mem)
          ((List.pairwise_flatMap.mp sorted_pages).1 chosen chosen_mem)
      have flatten_eq : ∀ pages : List (Page Value level),
          (pages.flatMap (itemLists level)).flatten = pages.flatMap (below level) := below_succ level
      refine ⟨front.flatMap (itemLists level) ++ before, list,
        behind ++ back.flatMap (itemLists level), ?_, ?_, fun value member => ?_,
        fun value member => ?_⟩
      · change page.flatMap (itemLists level) = _
        rw [pages_eq, List.flatMap_append, List.flatMap_cons, lists_eq]
        simp only [List.append_assoc, List.cons_append]
      · have step : descend key item (level + 1) page = ((page.take front.length).flatMap
            (itemLists level)).length + match page[front.length]? with
              | none => 0
              | some chosen => descend key item level chosen := by
          rw [← pos_eq]
          rfl
        have at_chosen : page[front.length]? = some chosen := by
          rw [pages_eq, List.getElem?_append_right (Nat.le_refl _), Nat.sub_self]
          rfl
        rw [step, at_chosen, pages_eq, List.take_left, List.length_append]
        exact congrArg (_ + ·) descend_eq
      · rw [List.flatten_append, flatten_eq] at member
        exact (List.mem_append.mp member).elim (less value) (before_less value)
      · rw [List.flatten_append, flatten_eq] at member
        exact (List.mem_append.mp member).elim (behind_greater value) (greater value)

theorem nonempty_of_filled {level : Nat} {page : Page Value level} (filled : Filled level page) :
    ∀ list ∈ itemLists level page, list ≠ [] := by
  induction level with
  | zero =>
      intro list member
      rw [List.mem_singleton.mp member]
      exact filled
  | succ level ih =>
      intro list member
      obtain ⟨chosen, chosen_mem, list_mem⟩ := List.mem_flatMap.mp member
      exact ih (filled.2 chosen chosen_mem) list list_mem

theorem length_itemLists {level : Nat} (single : level = 0) (page : Page Value level) :
    (itemLists level page).length = 1 := by
  subst single
  rfl

/-- Pages of items beside another one are not empty. -/
theorem nonempty_around {key : Value → Key} (formed : tree.WellFormed key)
    {front back : List (List Value)} {list : List Value}
    (lists_eq : tree.lists = front ++ list :: back) : ∀ other ∈ front ++ back, other ≠ [] := by
  intro other member
  obtain ⟨root, root_eq⟩ : ∃ root, tree.root = some root := by
    cases root_eq : tree.root with
    | none =>
        rw [lists, root_eq] at lists_eq
        exact absurd lists_eq.symm (List.append_ne_nil_of_right_ne_nil _ (List.cons_ne_nil _ _))
    | some root => exact ⟨root, rfl⟩
  rw [lists, root_eq] at lists_eq
  have lists_eq : itemLists tree.level root = front ++ list :: back := lists_eq
  by_cases single : tree.level = 0
  · have one := length_itemLists single root
    rw [lists_eq, List.length_append, List.length_cons] at one
    rw [List.length_eq_zero_iff.mp (by omega : front.length = 0),
      List.length_eq_zero_iff.mp (by omega : back.length = 0)] at member
    cases member
  · refine nonempty_of_filled (formed.filled root root_eq single) other ?_
    rw [lists_eq]
    rcases List.mem_append.mp member with before | behind
    · exact List.mem_append_left _ before
    · exact List.mem_append_right _ (List.mem_cons_of_mem _ behind)

/-- Sorted items split into smaller ones and the others. -/
theorem split_sorted {key : Value → Key} {list : List Value}
    (sorted : list.Pairwise fun first second => key first < key second) (item : Key) :
    ∃ before behind, list = before ++ behind ∧ (∀ value ∈ before, key value < item) ∧
      ∀ value ∈ behind, item ≤ key value := by
  induction list with
  | nil => exact ⟨[], [], rfl, nofun, nofun⟩
  | cons head tail ih =>
      obtain ⟨head_less, tail_sorted⟩ := List.pairwise_cons.mp sorted
      by_cases smaller : key head < item
      · obtain ⟨before, behind, rfl, before_less, behind_ge⟩ := ih tail_sorted
        exact ⟨head :: before, behind, rfl, List.forall_mem_cons.mpr ⟨smaller, before_less⟩, behind_ge⟩
      · refine ⟨[], head :: tail, rfl, nofun, List.forall_mem_cons.mpr ⟨not_lt.mp smaller, ?_⟩⟩
        exact fun value member => (not_lt.mp smaller).trans (head_less value member).le

/-- A page of items, split at a position, and the pages around it, which are not empty. -/
structure Around (tree : BePlusTree Value) (front : List (List Value)) (before behind : List Value)
    (back : List (List Value)) : Prop where
  lists_eq : tree.lists = front ++ (before ++ behind) :: back
  front_filled : ∀ list ∈ front, list ≠ []
  back_filled : ∀ list ∈ back, list ≠ []

/-- Where `locate` arrives: at the place of a key. -/
structure Arrived (tree : BePlusTree Value) (key : Value → Key) (item : Key)
    (front : List (List Value)) (before behind : List Value) (back : List (List Value)) : Prop
    extends Around tree front before behind back where
  smaller : ∀ value ∈ front.flatten ++ before, key value < item
  others : ∀ value ∈ behind ++ back.flatten, item ≤ key value
  greater : ∀ value ∈ back.flatten, item < key value

theorem around_of_lists {key : Value → Key} (formed : tree.WellFormed key)
    {front back : List (List Value)} {before behind : List Value}
    (lists_eq : tree.lists = front ++ (before ++ behind) :: back) :
    Around tree front before behind back :=
  have nonempty := nonempty_around formed lists_eq
  ⟨lists_eq, fun other member => nonempty other (List.mem_append_left _ member),
    fun other member => nonempty other (List.mem_append_right _ member)⟩

theorem exists_arrived {key : Value → Key} (formed : tree.WellFormed key) (item : Key)
    {root : Page Value tree.level} (root_eq : tree.root = some root) :
    ∃ front before behind back, Arrived tree key item front before behind back ∧
      descend key item tree.level root = front.length := by
  have lists_of_root : tree.lists = itemLists tree.level root := by
    rw [lists, root_eq]
  have sorted : (below tree.level root).Pairwise fun first second => key first < key second := by
    rw [below, ← lists_of_root]
    exact formed.sorted
  obtain ⟨front, list, back, lists_eq, descend_eq, less, greater⟩ :=
    @descend_spec _ _ _ key tree.level root item (formed.filled root root_eq) sorted
  have list_sorted : list.Pairwise fun first second => key first < key second := by
    have flat : tree.items = front.flatten ++ (list ++ back.flatten) := by
      rw [items, lists_of_root, lists_eq, List.flatten_append, List.flatten_cons]
    exact ((List.pairwise_append.mp (List.pairwise_append.mp (flat ▸ formed.sorted)).2.1)).1
  obtain ⟨before, behind, rfl, before_less, behind_ge⟩ := split_sorted list_sorted item
  refine ⟨front, before, behind, back, ⟨around_of_lists formed (lists_of_root.trans lists_eq),
    fun value member => ?_, fun value member => ?_, greater⟩, descend_eq⟩
  · exact (List.mem_append.mp member).elim (less value) (before_less value)
  · exact (List.mem_append.mp member).elim (behind_ge value) fun there => (greater value there).le

namespace Around

variable {front back : List (List Value)}
  {before behind : List Value}

theorem items_eq (around : Around tree front before behind back) :
    tree.items = (front.flatten ++ before) ++ (behind ++ back.flatten) := by
  rw [items, around.lists_eq, List.flatten_append, List.flatten_cons, List.append_assoc,
    List.append_assoc]

theorem list_eq (around : Around tree front before behind back) :
    tree.lists[front.length]? = some (before ++ behind) := by
  rw [around.lists_eq, List.getElem?_append_right (Nat.le_refl _), Nat.sub_self]
  rfl

theorem getCount_eq (around : Around tree front before behind back) :
    tree.getCount front.length = before.length + behind.length := by
  rw [getCount, around.list_eq, Option.getD_some, List.length_append]

/-- The first item that is not smaller, if there is one. -/
theorem forwards_spec (around : Around tree front before behind back) :
    behind ++ back.flatten = [] ∧ (Accessor.forwards tree front.length before.length).curr = none ∨
      ∃ value ahead, behind ++ back.flatten = value :: ahead ∧
        (Accessor.forwards tree front.length before.length).At tree (front.flatten ++ before) value
          ahead := by
  rw [Accessor.forwards, around.getCount_eq]
  cases behind with
  | cons value behind =>
      rw [if_neg (by rw [List.length_cons]; omega)]
      exact .inr ⟨value, behind ++ back.flatten, rfl, front, before, behind, back, around.lists_eq, rfl,
        rfl, rfl⟩
  | nil =>
      rw [List.length_nil, if_pos (Nat.add_zero _).symm, next, around.lists_eq, List.length_append, List.length_cons]
      cases back with
      | nil =>
          rw [if_neg (by rw [List.length_nil]; omega)]
          exact .inl ⟨rfl, rfl⟩
      | cons list back =>
          obtain ⟨value, rest, rfl⟩ :=
            List.exists_cons_of_ne_nil (around.back_filled list List.mem_cons_self)
          rw [if_pos (by rw [List.length_cons]; omega)]
          refine .inr ⟨value, rest ++ back.flatten, rfl, front ++ [before], [], rest, back, ?_, ?_, ?_,
            rfl⟩
          · rw [around.lists_eq, List.append_nil, List.append_assoc]
            rfl
          · rw [List.length_append]
            rfl
          · rw [List.flatten_append, List.flatten_cons, List.flatten_nil, List.append_nil, List.append_nil]

/-- The last smaller item, if there is one. -/
theorem backwards_spec (around : Around tree front before behind back) :
    front.flatten ++ before = [] ∧ (Accessor.backwards tree front.length before.length).1 = false ∨
      ∃ accessor passed value, Accessor.backwards tree front.length before.length = (true, accessor) ∧
        front.flatten ++ before = passed ++ [value] ∧
        accessor.At tree passed value (behind ++ back.flatten) := by
  rcases List.eq_nil_or_concat before with rfl | ⟨before, value, rfl⟩
  · rcases List.eq_nil_or_concat front with rfl | ⟨front, list, rfl⟩
    · exact .inl ⟨rfl, rfl⟩
    · rw [List.concat_eq_append] at around ⊢
      have list_nonempty := around.front_filled list (List.mem_append_right _ List.mem_cons_self)
      obtain ⟨rest, value, list_eq⟩ : ∃ rest value, list = rest ++ [value] :=
        ⟨list.dropLast, list.getLast list_nonempty, (List.dropLast_append_getLast list_nonempty).symm⟩
      have lists_eq : tree.lists = front ++ (rest ++ value :: []) :: (behind :: back) := by
        rw [around.lists_eq, list_eq, List.append_assoc]
        rfl
      have count_eq : tree.getCount front.length - 1 = rest.length := by
        rw [getCount, lists_eq, List.getElem?_append_right (Nat.le_refl _), Nat.sub_self]
        change (rest ++ [value]).length - 1 = rest.length
        rw [List.length_append]
        rfl
      refine .inr ⟨⟨some front.length, rest.length⟩, front.flatten ++ rest, value, ?_, ?_, front, rest,
        [], behind :: back, lists_eq, rfl, rfl, rfl⟩
      · rw [Accessor.backwards, List.length_nil, if_pos rfl, List.length_append]
        change (true, Accessor.mk (some front.length) (tree.getCount front.length - 1)) = _
        rw [count_eq]
      · rw [list_eq, List.flatten_append, List.flatten_cons, List.flatten_nil, List.append_nil,
          List.append_nil, List.append_assoc]
  · rw [List.concat_eq_append] at around ⊢
    refine .inr ⟨⟨some front.length, before.length⟩, front.flatten ++ before, value, ?_, ?_, front,
      before, behind, back, ?_, rfl, rfl, rfl⟩
    · rw [Accessor.backwards, List.length_append, List.length_singleton,
        if_neg (Nat.succ_ne_zero before.length), Nat.add_sub_cancel]
    · rw [List.append_assoc]
    · rw [around.lists_eq, List.append_assoc]
      rfl

end Around

section Locate

variable {key : Value → Key} {item : Key}

/-- The search on the page of items. -/
theorem Arrived.find_eq {front back : List (List Value)} {before behind : List Value}
    (arrived : Arrived tree key item front before behind back) :
    find (fun value => some (key value)) ((tree.lists[front.length]?).getD []) item =
      (behind.head?.any fun value => decide (key value ≤ item), before.length) := by
  rw [arrived.list_eq, Option.getD_some]
  exact find_spec
    (fun value member => ⟨key value, rfl, arrived.smaller value (List.mem_append_right _ member)⟩)
    fun value member => ⟨key value, rfl, arrived.others value (List.mem_append_left _ member)⟩

/-- In a tree without a page nothing is found. -/
theorem locate_of_none (lt : LocType) (item : Key) (root_eq : tree.root = none) :
    (Accessor.locate tree key lt item).1 = false ∧ tree.items = [] := by
  rw [Accessor.locate, items, lists, root_eq]
  exact ⟨rfl, rfl⟩

/-- Keys behind an item are greater. -/
theorem Accessor.At.ahead_greater (at_value : accessor.At tree passed value ahead)
    (formed : tree.WellFormed key) : ∀ other ∈ ahead, key value < key other :=
  (List.pairwise_cons.mp (List.pairwise_append.mp (at_value.items_eq ▸ formed.sorted)).2.1).1

theorem Accessor.At.passed_smaller (at_value : accessor.At tree passed value ahead)
    (formed : tree.WellFormed key) : ∀ other ∈ passed, key other < key value :=
  fun other member => (List.pairwise_append.mp (at_value.items_eq ▸ formed.sorted)).2.2 other member
    value List.mem_cons_self

/-- The search on the page finds the item with the key, or there is none in the tree. -/
theorem Arrived.found_cases {front back : List (List Value)} {before behind : List Value}
    (arrived : Arrived tree key item front before behind back) (formed : tree.WellFormed key) :
    (behind.head?.any (fun value => decide (key value ≤ item)) = true ∧
        ∃ value ahead, behind ++ back.flatten = value :: ahead ∧ key value = item ∧
          (Accessor.mk (some front.length) before.length).At tree (front.flatten ++ before) value
            ahead) ∨
      behind.head?.any (fun value => decide (key value ≤ item)) = false ∧
        ∀ value ∈ behind ++ back.flatten, item < key value := by
  cases behind with
  | nil => exact .inr ⟨rfl, arrived.greater⟩
  | cons value behind =>
      have first_ge := arrived.others value (List.mem_append_left _ List.mem_cons_self)
      have at_value : (Accessor.mk (some front.length) before.length).At tree
          (front.flatten ++ before) value (behind ++ back.flatten) :=
        ⟨front, before, behind, back, arrived.lists_eq, rfl, rfl, rfl⟩
      rw [List.head?_cons, Option.any_some]
      by_cases same : key value ≤ item
      · exact .inl ⟨decide_eq_true same, value, _, rfl, le_antisymm same first_ge, at_value⟩
      · refine .inr ⟨decide_eq_false same, fun other member => ?_⟩
        rcases List.mem_cons.mp member with rfl | later
        · exact not_le.mp same
        · exact (not_le.mp same).trans (at_value.ahead_greater formed other later)

/-- `locate` with `locEqual`. -/
theorem locate_equal (formed : tree.WellFormed key) (item : Key) :
    (Accessor.locate tree key .locEqual item).1 = false ∧ (∀ value ∈ tree.items, key value ≠ item) ∨
      ∃ accessor passed value ahead, Accessor.locate tree key .locEqual item = (true, accessor) ∧
        accessor.At tree passed value ahead ∧ key value = item := by
  cases root_eq : tree.root with
  | none =>
      obtain ⟨missed, items_eq⟩ := @locate_of_none _ _ _ tree key .locEqual item root_eq
      exact .inl ⟨missed, items_eq ▸ nofun⟩
  | some root =>
      obtain ⟨front, before, behind, back, arrived, descend_eq⟩ := exists_arrived formed item root_eq
      have locate_eq : Accessor.locate tree key .locEqual item =
          (behind.head?.any fun value => decide (key value ≤ item),
            ⟨some front.length, before.length⟩) := by
        simp only [Accessor.locate, root_eq, descend_eq, arrived.find_eq]
      rw [locate_eq]
      rcases arrived.found_cases formed with ⟨found, value, ahead, -, same, at_value⟩ |
        ⟨missed, greater⟩
      · rw [found]
        exact .inr ⟨_, _, value, ahead, rfl, at_value, same⟩
      · refine .inl ⟨missed, fun value member => ?_⟩
        rw [arrived.items_eq] at member
        rcases List.mem_append.mp member with less | later
        · exact (arrived.smaller value less).ne
        · exact (greater value later).ne'

/-- `locate` with `locGreatEqual`. -/
theorem locate_greatEqual (formed : tree.WellFormed key) (item : Key) :
    (Accessor.locate tree key .locGreatEqual item).1 = false ∧
        (∀ value ∈ tree.items, key value < item) ∨
      ∃ accessor passed value ahead, Accessor.locate tree key .locGreatEqual item = (true, accessor) ∧
        accessor.At tree passed value ahead ∧ (∀ other ∈ passed, key other < item) ∧
        item ≤ key value := by
  cases root_eq : tree.root with
  | none =>
      obtain ⟨missed, items_eq⟩ := @locate_of_none _ _ _ tree key .locGreatEqual item root_eq
      exact .inl ⟨missed, items_eq ▸ nofun⟩
  | some root =>
      obtain ⟨front, before, behind, back, arrived, descend_eq⟩ := exists_arrived formed item root_eq
      have locate_eq : Accessor.locate tree key .locGreatEqual item =
          ((behind.head?.any fun value => decide (key value ≤ item)) ||
              (Accessor.forwards tree front.length before.length).curr.isSome,
            Accessor.forwards tree front.length before.length) := by
        simp only [Accessor.locate, root_eq, descend_eq, arrived.find_eq]
      rw [locate_eq]
      rcases arrived.forwards_spec with ⟨none_left, curr_eq⟩ | ⟨value, ahead, rest_eq, at_value⟩
      · obtain ⟨behind_eq, -⟩ := List.append_eq_nil_iff.mp none_left
        refine .inl ⟨?_, fun value member => ?_⟩
        · rw [behind_eq, curr_eq]
          rfl
        · rw [arrived.items_eq, none_left, List.append_nil] at member
          exact arrived.smaller value member
      · have some_curr : (Accessor.forwards tree front.length before.length).curr.isSome = true := by
          obtain ⟨front, before, behind, back, -, accessor_eq, -, -⟩ := at_value
          rw [accessor_eq]
          rfl
        rw [some_curr, Bool.or_true]
        refine .inr ⟨_, _, value, ahead, rfl, at_value, arrived.smaller, ?_⟩
        exact arrived.others value (rest_eq ▸ List.mem_cons_self)

/-- `locate` with `locLessEqual`. -/
theorem locate_lessEqual (formed : tree.WellFormed key) (item : Key) :
    (Accessor.locate tree key .locLessEqual item).1 = false ∧
        (∀ value ∈ tree.items, item < key value) ∨
      ∃ accessor passed value ahead, Accessor.locate tree key .locLessEqual item = (true, accessor) ∧
        accessor.At tree passed value ahead ∧ key value ≤ item ∧ ∀ other ∈ ahead, item < key other := by
  cases root_eq : tree.root with
  | none =>
      obtain ⟨missed, items_eq⟩ := @locate_of_none _ _ _ tree key .locLessEqual item root_eq
      exact .inl ⟨missed, items_eq ▸ nofun⟩
  | some root =>
      obtain ⟨front, before, behind, back, arrived, descend_eq⟩ := exists_arrived formed item root_eq
      have locate_eq : Accessor.locate tree key .locLessEqual item =
          if (behind.head?.any fun value => decide (key value ≤ item)) = true then
            (true, ⟨some front.length, before.length⟩)
          else Accessor.backwards tree front.length before.length := by
        simp only [Accessor.locate, root_eq, descend_eq, arrived.find_eq]
      rw [locate_eq]
      rcases arrived.found_cases formed with ⟨found, value, ahead, -, same, at_value⟩ |
        ⟨missed, greater⟩
      · rw [if_pos found]
        exact .inr ⟨_, _, value, ahead, rfl, at_value, same.le, same ▸ at_value.ahead_greater formed⟩
      · rw [if_neg (Bool.eq_false_iff.mp missed)]
        rcases arrived.backwards_spec with ⟨none_before, backwards_eq⟩ |
          ⟨accessor, passed, value, backwards_eq, passed_eq, at_value⟩
        · refine .inl ⟨backwards_eq, fun value member => ?_⟩
          rw [arrived.items_eq, none_before, List.nil_append] at member
          exact greater value member
        · refine .inr ⟨accessor, passed, value, _, backwards_eq, at_value, ?_, greater⟩
          exact (arrived.smaller value (passed_eq ▸ List.mem_append_right _ List.mem_cons_self)).le

end Locate

section Step

variable {key : Value → Key}

/-- `getNext` moves to the item behind, if there is one. -/
theorem getNext_spec (formed : tree.WellFormed key) (at_value : accessor.At tree passed value ahead) :
    ahead = [] ∧ (accessor.getNext tree).1 = false ∨
      ∃ moved next rest, ahead = next :: rest ∧ accessor.getNext tree = (true, moved) ∧
        moved.At tree (passed ++ [value]) next rest := by
  obtain ⟨front, before, behind, back, lists_eq, rfl, rfl, rfl⟩ := at_value
  have around : Around tree front (before ++ [value]) behind back :=
    around_of_lists formed (by rw [lists_eq, List.append_assoc]; rfl)
  have length_eq : (before ++ [value]).length = before.length + 1 := List.length_append
  have count_eq := around.getCount_eq
  have step_eq : (Accessor.mk (some front.length) before.length).getNext tree =
      match (Accessor.forwards tree front.length (before ++ [value]).length).curr with
      | none => (false, ⟨some front.length, before.length⟩)
      | some _ => (true, Accessor.forwards tree front.length (before ++ [value]).length) := by
    rw [Accessor.getNext, Accessor.forwards]
    dsimp only
    rw [count_eq, length_eq]
    by_cases last : behind.length = 0
    · rw [if_pos (by omega), if_pos (by omega)]
      cases tree.next front.length <;> rfl
    · rw [if_neg (by omega), if_neg (by omega)]
  rcases around.forwards_spec with ⟨none_left, curr_eq⟩ | ⟨next, rest, rest_eq, at_next⟩
  · rw [step_eq, curr_eq]
    exact .inl ⟨none_left, rfl⟩
  · obtain ⟨curr, curr_eq⟩ : ∃ curr, (Accessor.forwards tree front.length
        (before ++ [value]).length).curr = some curr := by
      obtain ⟨front, before, behind, back, -, accessor_eq, -, -⟩ := at_next
      exact ⟨_, congrArg Accessor.curr accessor_eq⟩
    rw [step_eq, curr_eq]
    exact .inr ⟨_, next, rest, rest_eq, rfl, List.append_assoc _ _ _ ▸ at_next⟩

/-- `getPrev` moves to the item before, if there is one. -/
theorem getPrev_spec (formed : tree.WellFormed key) (at_value : accessor.At tree passed value ahead) :
    passed = [] ∧ (accessor.getPrev tree).1 = false ∨
      ∃ moved before prev, passed = before ++ [prev] ∧ accessor.getPrev tree = (true, moved) ∧
        moved.At tree before prev (value :: ahead) := by
  obtain ⟨front, before, behind, back, lists_eq, rfl, rfl, rfl⟩ := at_value
  have around : Around tree front before (value :: behind) back := around_of_lists formed lists_eq
  have step_eq : (Accessor.mk (some front.length) before.length).getPrev tree =
      if (Accessor.backwards tree front.length before.length).1 = true then
        Accessor.backwards tree front.length before.length
      else (false, ⟨some front.length, before.length⟩) := by
    rw [Accessor.getPrev, Accessor.backwards]
    dsimp only
    by_cases first : before.length = 0
    · rw [if_pos first, if_pos first]
      cases prev front.length <;> rfl
    · rw [if_neg first, if_neg first]
      rfl
  rcases around.backwards_spec with ⟨none_before, backwards_eq⟩ |
    ⟨moved, before_all, prev, backwards_eq, passed_eq, at_prev⟩
  · rw [step_eq, backwards_eq]
    exact .inl ⟨none_before, rfl⟩
  · rw [step_eq, backwards_eq]
    exact .inr ⟨moved, before_all, prev, passed_eq, rfl, at_prev⟩

end Step

end BePlusTree
end Firebird
