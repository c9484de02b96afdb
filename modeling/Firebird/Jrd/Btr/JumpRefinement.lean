import Firebird.Jrd.Btr.JumpArea

/-!
# Searching with and without jump nodes

The jump-node area only shortens a search.  Both ways lead to the same node and the same page, except
that a search for a record number may start behind duplicates with smaller record numbers.
-/

namespace Firebird

variable {descending retrieval : Bool}

theorem RecordsOrdered.congr {key : List UInt8} {left right : Option (List UInt8)}
    {nodes : List IndexNode} (same : left.getD [] = right.getD [])
    (ordered : RecordsOrdered key left nodes) : RecordsOrdered key right nodes := by
  rcases nodes with - | ⟨first, - | ⟨second, rest⟩⟩
  · trivial
  · trivial
  · rw [RecordsOrdered] at ordered ⊢
    rw [← same]
    exact ordered

namespace Bucket

variable (bucket : Bucket descending)

/-- A scan may start at the node. -/
structure Scan (skip : Nat) : Prop where
  chained : Chained descending none (bucket.nodes.drop skip)
  key : ∀ {front rest : List IndexNode} {node : IndexNode},
    bucket.nodes.drop skip = front ++ node :: rest →
      keyAt bucket.nodes (skip + front.length) = node.key ((lastKey none front).getD [])
  ordered : ∀ {key : List UInt8}, RecordsOrdered key none bucket.nodes →
    RecordsOrdered key none (bucket.nodes.drop skip)

theorem scan_zero (chained : Chained descending none bucket.nodes) : bucket.Scan 0 where
  chained := chained
  key := by
    intro front rest node split
    rw [List.drop_zero] at split
    rw [Nat.zero_add, split, keyAt_append]
  ordered := id

theorem scan_one {first : IndexNode} {rest : List IndexNode}
    (nodes : bucket.nodes = first :: rest) (empty : first.data = []) (more : rest ≠ []) :
    bucket.Scan 1 := by
  have nothing : first.key [] = [] := by rw [IndexNode.key, empty, List.take_nil, List.append_nil]
  have tail : bucket.nodes.drop 1 = rest := by rw [nodes]; rfl
  refine ⟨?_, ?_, ?_⟩
  · rw [tail]
    rcases bucket.chained with chained | ⟨-, degenerate, others, split, -, chained⟩
    · rw [nodes] at chained
      have later := (chained.head more).2.2.2
      rw [Option.getD_none, nothing] at later
      cases rest with
      | nil => exact absurd rfl more
      | cons next rest =>
          rw [Chained] at later ⊢
          split
          · rename_i level
            rw [if_pos level] at later
            exact later
          · rename_i level
            rw [if_neg level] at later
            refine ⟨?_, later.2⟩
            have full := later.1.1
            rw [computePrefix] at full
            · exact full
            · exact fun _ _ _ _ impossible _ => by cases impossible
    · rw [nodes] at split
      obtain ⟨-, rfl⟩ := List.cons.inj split
      exact chained
  · intro front last node split
    rw [tail] at split
    have whole : bucket.nodes = (first :: front) ++ node :: last := by
      rw [nodes, split, List.cons_append]
    have place : 1 + front.length = (first :: front).length := by
      rw [List.length_cons, Nat.add_comm]
    rw [place, whole, keyAt_append, lastKey_getD, lastKey_getD, List.foldl_cons, Option.getD_none,
      nothing]
  · intro key ordered
    rw [tail]
    rw [nodes] at ordered
    exact ordered.tail.congr (by rw [Option.getD_none, nothing, Option.getD_some])

theorem Scan.reach {bucket : Bucket descending} {skip place : Nat} {node : IndexNode}
    (scan : bucket.Scan skip) (behind : skip ≤ place)
    (there : bucket.nodes[place]? = some node) :
    ∃ front rest, bucket.nodes.drop skip = front ++ node :: rest ∧
      bucket.nodes.drop place = node :: rest ∧ place = skip + front.length ∧
      keyAt bucket.nodes place = node.key ((lastKey none front).getD []) := by
  have later : (bucket.nodes.drop skip)[place - skip]? = some node := by
    rw [List.getElem?_drop, Nat.add_sub_cancel' behind]
    exact there
  obtain ⟨front, rest, split, length⟩ := split_at later
  have position : place = skip + front.length := by omega
  refine ⟨front, rest, split, ?_, position, ?_⟩
  · rw [position, ← List.drop_drop, split]
    exact List.drop_left
  · rw [position]
    exact scan.key split

/-- The nodes that `find_node_start_point` leaves out in front. -/
def nodeSkip : Nat :=
  if bucket.btr_level ≠ 0 ∧ descending = true ∧
      bucket.nodes.head?.map IndexNode.length = some 0 then 1 else 0

/-- The nodes that `find_page` leaves out in front. -/
def pageSkip : Nat :=
  if bucket.nodes.head?.map IndexNode.prefixLength = some 0 ∧
      bucket.nodes.head?.map IndexNode.length = some 0 then 1 else 0

theorem first_scan {first : IndexNode} {rest : List IndexNode}
    (nodes : bucket.nodes = first :: rest) (empty : first.length = 0) :
    bucket.nodes.drop 1 = [] ∨ bucket.Scan 1 := by
  cases rest with
  | nil => exact .inl (by rw [nodes]; rfl)
  | cons next rest =>
      exact .inr (bucket.scan_one nodes (List.eq_nil_of_length_eq_zero empty) (List.cons_ne_nil _ _))

theorem nodes_ne_nil : ∃ first rest, bucket.nodes = first :: rest := by
  rcases bucket.chained with chained | ⟨-, first, rest, split, -⟩
  · cases nodes : bucket.nodes with
    | nil =>
        rw [nodes] at chained
        exact absurd chained id
    | cons first rest => exact ⟨first, rest, rfl⟩
  · exact ⟨first, rest, split⟩

theorem nodeSkip_scan :
    bucket.nodes.drop bucket.nodeSkip = [] ∨ bucket.Scan bucket.nodeSkip := by
  obtain ⟨first, rest, nodes⟩ := bucket.nodes_ne_nil
  rw [nodeSkip]
  split
  · rename_i skipped
    have empty := skipped.2.2
    rw [nodes, List.head?_cons, Option.map_some, Option.some.injEq] at empty
    exact bucket.first_scan nodes empty
  · rename_i kept
    refine .inr (bucket.scan_zero ?_)
    rcases bucket.chained with chained | ⟨level, degenerate, others, split, empty, chained⟩
    · exact chained
    · have ascending : descending = false := by
        refine (Bool.not_eq_true _).mp fun turned => kept ⟨level, turned, ?_⟩
        rw [split, List.head?_cons, Option.map_some, IndexNode.length, empty.2.1]
        rfl
      subst ascending
      rw [split]
      exact chained_ascending empty chained

theorem pageSkip_scan :
    bucket.nodes.drop bucket.pageSkip = [] ∨ bucket.Scan bucket.pageSkip := by
  obtain ⟨first, rest, nodes⟩ := bucket.nodes_ne_nil
  rw [pageSkip]
  split
  · rename_i skipped
    have empty := skipped.2
    rw [nodes, List.head?_cons, Option.map_some, Option.some.injEq] at empty
    exact bucket.first_scan nodes empty
  · rename_i kept
    refine .inr (bucket.scan_zero ?_)
    rcases bucket.chained with chained | ⟨level, degenerate, others, split, empty, chained⟩
    · exact chained
    · refine absurd ⟨?_, ?_⟩ kept
      · rw [split, List.head?_cons, Option.map_some, empty.1]
      · rw [split, List.head?_cons, Option.map_some, IndexNode.length, empty.2.1]
        rfl

/-- A node behind the first one is within the scan. -/
theorem scan_of_there {place skip : Nat} {node : IndexNode} (short : skip ≤ 1)
    (scan : bucket.nodes.drop skip = [] ∨ bucket.Scan skip)
    (there : bucket.nodes[place]? = some node) (later : place ≠ 0) : bucket.Scan skip := by
  refine scan.resolve_left fun nothing => ?_
  obtain ⟨inside, -⟩ := List.getElem?_eq_some_iff.mp there
  have length := List.drop_eq_nil_iff.mp nothing
  omega

theorem nodeSkip_le : bucket.nodeSkip ≤ 1 := by
  rw [nodeSkip]
  split
  · exact Nat.le_refl _
  · exact Nat.zero_le _

theorem pageSkip_le : bucket.pageSkip ≤ 1 := by
  rw [pageSkip]
  split
  · exact Nat.le_refl _
  · exact Nat.zero_le _

/-! ## `find_node_start_point` -/

/-- A start at the first node. -/
theorem findNodeStartPoint_first {key : SearchKey} {value : Option (List UInt8)}
    {pointer_by_marker : Bool} {find_record_number : Option Nat} {area : Area}
    (found : bucket.findAreaStartPoint retrieval key.key_data value find_record_number = .ok area)
    (start : area.start = 0) :
    bucket.findNodeStartPoint retrieval key value pointer_by_marker find_record_number =
      findNode descending retrieval key.key_data pointer_by_marker bucket.nodeSkip
        area.returnPrefix true area.value (bucket.nodes.drop bucket.nodeSkip) := by
  rw [findNodeStartPoint, found]
  simp only [bind, Except.bind, start, List.drop_zero, true_and, nodeSkip]
  split
  · rw [← List.drop_one]
  · rw [List.drop_zero]

/-- A start behind the first node. -/
theorem findNodeStartPoint_later {key : SearchKey} {value : Option (List UInt8)}
    {pointer_by_marker : Bool} {find_record_number : Option Nat} {area : Area}
    (found : bucket.findAreaStartPoint retrieval key.key_data value find_record_number = .ok area)
    (start : area.start ≠ 0) :
    bucket.findNodeStartPoint retrieval key value pointer_by_marker find_record_number =
      findNode descending retrieval key.key_data pointer_by_marker area.start
        area.returnPrefix true area.value (bucket.nodes.drop area.start) := by
  rw [findNodeStartPoint, found]
  simp only [bind, Except.bind]
  rw [if_neg fun skipped => start skipped.2.2.1]

/-- The scan from the first node. -/
theorem findNodeStartPoint_scan (key : SearchKey) (value : Option (List UInt8))
    (pointer_by_marker : Bool) (find_record_number : Option Nat) :
    bucket.withoutJumps.findNodeStartPoint retrieval key value pointer_by_marker
        find_record_number =
      findNode descending retrieval key.key_data pointer_by_marker bucket.nodeSkip 0 true value
        (bucket.nodes.drop bucket.nodeSkip) :=
  bucket.withoutJumps.findNodeStartPoint_first rfl rfl

theorem Landed.first_prefix {bucket : Bucket descending} {key : List UInt8}
    {find_record_number : Option Nat} {area : Area}
    (landed : bucket.Landed retrieval key find_record_number area) (start : area.start = 0) :
    area.returnPrefix = 0 := by
  rcases landed with ⟨-, unshared⟩ | ⟨node, there, -, -, reached⟩
  · exact unshared
  · rw [start] at there
    obtain ⟨rest, nodes⟩ := List.head?_eq_some_iff.mp (List.head?_eq_getElem? ▸ there)
    have unshared := bucket.first_unshared nodes
    rcases reached with ⟨moved, -, reached⟩ | ⟨-, reached, -⟩
    · rw [reached, unshared, Nat.zero_min]
    · rw [reached, unshared]

/-- Without a record number jump nodes do not change the node or the prefix that is returned. -/
theorem findNodeStartPoint_jumps (key : SearchKey) (value other : Option (List UInt8))
    (pointer_by_marker : Bool) :
    (bucket.findNodeStartPoint retrieval key value pointer_by_marker none).map Prod.fst =
      (bucket.withoutJumps.findNodeStartPoint retrieval key other pointer_by_marker none).map
        Prod.fst := by
  obtain ⟨area, found, landed, -⟩ :=
    @findAreaStartPoint_landed descending retrieval bucket key.key_data value none
  rw [findNodeStartPoint_scan]
  by_cases start : area.start = 0
  · rw [bucket.findNodeStartPoint_first found start, landed.first_prefix start]
    rcases bucket.nodeSkip_scan with nothing | scan
    · rw [nothing]
      rfl
    · exact findNode_congr scan.chained rfl (fun _ => rfl) fun _ => rfl
  · rw [bucket.findNodeStartPoint_later found start]
    rcases landed with ⟨impossible, -⟩ | ⟨node, there, -, no_end, reached⟩
    · exact absurd impossible start
    · have scan := bucket.scan_of_there bucket.nodeSkip_le bucket.nodeSkip_scan there start
      obtain ⟨front, rest, split, rest_split, place, node_key⟩ :=
        scan.reach (bucket.nodeSkip_le.trans (Nat.one_le_iff_ne_zero.mpr start)) there
      rcases reached with ⟨moved, passes, reached⟩ | ⟨-, -, number, impossible, -⟩
      · have chained := scan.chained
        rw [split] at chained
        rw [node_key] at passes
        rw [rest_split, reached, place, split]
        exact (findNode_skip chained no_end passes rfl fun _ => rfl).symm
      · cases impossible

theorem chained_unshared {node : IndexNode} {rest : List IndexNode}
    (chained : Chained descending none (node :: rest)) : node.prefixLength = 0 := by
  rw [Chained] at chained
  split at chained
  · exact chained.1
  · exact chained.1

/-- Without a record number the buffer holds the key of the node that is returned. -/
theorem findNodeStartPoint_holds {key : SearchKey} {value after : Option (List UInt8)}
    {pointer_by_marker : Bool} {pointer keyPrefix : Nat}
    (run : bucket.findNodeStartPoint retrieval key value pointer_by_marker none =
      .ok (some (pointer, keyPrefix), after)) :
    Holds after (keyAt bucket.nodes pointer) := by
  obtain ⟨area, found, landed, prepared⟩ :=
    @findAreaStartPoint_landed descending retrieval bucket key.key_data value none
  by_cases start : area.start = 0
  · rw [bucket.findNodeStartPoint_first found start] at run
    rcases bucket.nodeSkip_scan with nothing | scan
    · rw [nothing] at run
      cases run
    · have first : ∀ node ∈ (bucket.nodes.drop bucket.nodeSkip).head?,
          Holds area.value ((Option.getD none []).take node.prefixLength) := by
        intro node _ buffer _
        rw [Option.getD_none, List.take_nil]
        exact List.nil_prefix
      obtain ⟨front, last, rest, split, place, held⟩ := findNode_holds scan.chained first run
      rw [place, scan.key split]
      exact held
  · rw [bucket.findNodeStartPoint_later found start] at run
    rcases landed with ⟨impossible, -⟩ | ⟨node, there, -, no_end, -⟩
    · exact absurd impossible start
    · have scan := bucket.scan_of_there bucket.nodeSkip_le bucket.nodeSkip_scan there start
      obtain ⟨front, rest, split, rest_split, place, node_key⟩ :=
        scan.reach (bucket.nodeSkip_le.trans (Nat.one_le_iff_ne_zero.mpr start)) there
      have chained := scan.chained
      rw [split] at chained
      have inside := (chained.back.follows no_end).inside
      have held := prepared rfl node there
      rw [node_key, IndexNode.key_take inside] at held
      rw [rest_split] at run
      have first : ∀ head ∈ (node :: rest).head?,
          Holds area.value (((lastKey none front).getD []).take head.prefixLength) := by
        intro head same
        obtain rfl := Option.some.inj same
        exact held
      obtain ⟨middle, last, tail, again, position, held⟩ := findNode_holds chained.back first run
      have whole : bucket.nodes.drop bucket.nodeSkip = (front ++ middle) ++ last :: tail := by
        rw [split, again, List.append_assoc]
      have spot : pointer = bucket.nodeSkip + (front ++ middle).length := by
        rw [position, place, List.length_append, Nat.add_assoc]
      rw [spot, scan.key whole, lastKey, List.foldl_append]
      exact held

theorem nodeOutcome_duplicate {key : List UInt8} {place : Nat} {node : IndexNode}
    (there : bucket.nodes[place]? = some node) (no_end : node.isEndLevel = false)
    (same : keyAt bucket.nodes place = key) :
    nodeOutcome descending retrieval key node node.prefixLength true = .exact := by
  obtain ⟨whole, size⟩ := bucket.keyAt_take there no_end
  rw [same] at whole size
  have data : key.drop node.prefixLength = node.data := by
    have cut := congrArg (List.drop node.prefixLength) whole
    rw [List.drop_left' (List.length_take_of_le (by omega))] at cut
    exact cut.symm
  rw [nodeOutcome, no_end]
  simp only [Bool.false_eq_true, false_or, lt_irrefl, if_false, true_and, or_true, if_true]
  rw [Outcome.shift_eq_exact, compareNode_exact, data]

/-- With a record number the search may start behind some duplicates of the key. -/
theorem findNodeStartPoint_duplicates (key : SearchKey) (value other : Option (List UInt8))
    (pointer_by_marker : Bool) (find_record_number : Nat)
    (ordered : RecordsOrdered key.key_data none bucket.nodes) :
    (bucket.findNodeStartPoint false key value pointer_by_marker (some find_record_number)).map
          Prod.fst =
        (bucket.withoutJumps.findNodeStartPoint false key other pointer_by_marker
          (some find_record_number)).map Prod.fst ∨
      ∃ scanned scannedPrefix jumped jumpedPrefix, scanned ≤ jumped ∧
        (bucket.withoutJumps.findNodeStartPoint false key other pointer_by_marker
          (some find_record_number)).map Prod.fst = .ok (some (scanned, scannedPrefix)) ∧
        (bucket.findNodeStartPoint false key value pointer_by_marker
          (some find_record_number)).map Prod.fst = .ok (some (jumped, jumpedPrefix)) ∧
        keyAt bucket.nodes jumped = key.key_data ∧
        ∀ place < jumped, scanned ≤ place → ∃ duplicate,
          bucket.nodes[place]? = some duplicate ∧ keyAt bucket.nodes place = key.key_data ∧
          duplicate.recordNumber < find_record_number := by
  obtain ⟨area, found, landed, -⟩ :=
    @findAreaStartPoint_landed descending false bucket key.key_data value (some find_record_number)
  rw [findNodeStartPoint_scan]
  by_cases start : area.start = 0
  · left
    rw [bucket.findNodeStartPoint_first found start, landed.first_prefix start]
    rcases bucket.nodeSkip_scan with nothing | scan
    · rw [nothing]
      rfl
    · exact findNode_congr scan.chained rfl (fun _ => rfl) fun _ => rfl
  · rw [bucket.findNodeStartPoint_later found start]
    rcases landed with ⟨impossible, -⟩ | ⟨node, there, no_bucket, no_end, reached⟩
    · exact absurd impossible start
    · have scan := bucket.scan_of_there bucket.nodeSkip_le bucket.nodeSkip_scan there start
      obtain ⟨front, rest, split, rest_split, place, node_key⟩ :=
        scan.reach (bucket.nodeSkip_le.trans (Nat.one_le_iff_ne_zero.mpr start)) there
      have chained := scan.chained
      have sorted := scan.ordered ordered
      rw [split] at chained sorted
      rcases reached with ⟨moved, passes, reached⟩ | ⟨same, reached, number, given, below⟩
      · left
        rw [node_key] at passes
        rw [rest_split, reached, place, split]
        exact (findNode_skip chained no_end passes rfl fun _ => rfl).symm
      · right
        obtain rfl := Option.some.inj given
        have exact_key := same
        rw [node_key] at exact_key
        obtain ⟨skipped, foundPrefix, short, scanned, duplicates⟩ :=
          @findNode_duplicate descending none key.key_data front rest node find_record_number
            bucket.nodeSkip 0 true pointer_by_marker other sorted chained no_end no_bucket
            exact_key below rfl fun _ => rfl
        refine ⟨bucket.nodeSkip + skipped, foundPrefix, area.start, node.prefixLength, by omega,
          ?_, ?_, same, ?_⟩
        · rw [split]
          exact scanned
        · rw [rest_split, reached, findNode, bucket.nodeOutcome_duplicate there no_end same]
          rfl
        · intro spot before behind
          obtain ⟨duplicate, inside, duplicate_key, smaller⟩ :=
            duplicates (spot - bucket.nodeSkip) (by omega) (by omega)
          obtain ⟨ahead, tail, cut, ahead_length⟩ := split_at inside
          rw [ahead_length, cut, List.take_left] at duplicate_key
          have whole : bucket.nodes.drop bucket.nodeSkip =
              ahead ++ duplicate :: (tail ++ node :: rest) := by
            rw [split, cut, List.append_assoc, List.cons_append]
          have position : spot = bucket.nodeSkip + ahead.length := by omega
          refine ⟨duplicate, ?_, ?_, smaller⟩
          · rw [position, ← List.getElem?_drop, whole, List.getElem?_append_right (Nat.le_refl _),
              Nat.sub_self]
            rfl
          · rw [position, scan.key whole]
            exact duplicate_key

/-! ## `find_page` -/

theorem findPageFrom_zero {key : List UInt8} {find_record_number : Option Nat}
    {returnPrefix : Nat} {first : IndexNode} {rest : List IndexNode}
    (nodes : bucket.nodes = first :: rest) (no_level : first.isEndLevel = false) :
    bucket.findPageFrom retrieval key find_record_number 0 returnPrefix =
      findPageNode descending retrieval key find_record_number first.pageNumber 0 true
        (bucket.nodes.drop bucket.pageSkip) := by
  rw [findPageFrom, pageSkip, nodes]
  simp only [List.drop_zero, no_level, Bool.false_eq_true, if_false, if_true, true_and,
    List.head?_cons, Option.map_some, Option.some.injEq]
  split
  · rfl
  · rfl

theorem findPageFrom_later {key : List UInt8} {find_record_number : Option Nat}
    {start returnPrefix : Nat} {node : IndexNode} {rest : List IndexNode}
    (nodes : bucket.nodes.drop start = node :: rest) (no_level : node.isEndLevel = false)
    (later : start ≠ 0) :
    bucket.findPageFrom retrieval key find_record_number start returnPrefix =
      findPageNode descending retrieval key find_record_number node.pageNumber returnPrefix true
        (node :: rest) := by
  rw [findPageFrom, nodes]
  simp only [no_level, Bool.false_eq_true, if_false, later, false_and]

/-- From a node behind the first one `find_page` comes to the page that it finds from the first. -/
theorem findPageFrom_landed {key : List UInt8} {find_record_number : Option Nat} {area : Area}
    (landed : bucket.Landed retrieval key find_record_number area) (start : area.start ≠ 0)
    (searched : find_record_number ≠ none →
      retrieval = false ∧ RecordsOrdered key none bucket.nodes) :
    bucket.findPageFrom retrieval key find_record_number area.start area.returnPrefix =
      bucket.findPageFrom retrieval key find_record_number 0 0 := by
  rcases landed with ⟨impossible, -⟩ | ⟨node, there, no_bucket, no_end, reached⟩
  · exact absurd impossible start
  · have scan := bucket.scan_of_there bucket.pageSkip_le bucket.pageSkip_scan there start
    obtain ⟨front, rest, split, rest_split, place, node_key⟩ :=
      scan.reach (bucket.pageSkip_le.trans (Nat.one_le_iff_ne_zero.mpr start)) there
    have chained := scan.chained
    rw [split] at chained
    have no_level : ∀ {first : IndexNode} {others : List IndexNode},
        bucket.nodes = first :: others → first.isEndLevel = false := by
      intro first others nodes
      have more : others ≠ [] := by
        rintro rfl
        obtain ⟨inside, -⟩ := List.getElem?_eq_some_iff.mp there
        rw [nodes, List.length_singleton] at inside
        exact start (Nat.lt_one_iff.mp inside)
      rcases bucket.chained with chained | ⟨-, degenerate, tail, again, empty, -⟩
      · rw [nodes] at chained
        exact (chained.head more).1
      · rw [nodes] at again
        obtain ⟨rfl, -⟩ := List.cons.inj again
        exact empty.2.2.2
    obtain ⟨first, others, nodes⟩ := bucket.nodes_ne_nil
    rw [bucket.findPageFrom_later rest_split no_end start,
      bucket.findPageFrom_zero nodes (no_level nodes), split]
    rcases reached with ⟨moved, passes, reached⟩ | ⟨same, reached, number, given, below⟩
    · rw [node_key] at passes
      rw [reached]
      exact (findPageNode_skip chained no_end passes rfl fun _ => rfl).symm
    · subst given
      obtain ⟨turned, ordered⟩ := searched (Option.some_ne_none _)
      subst turned
      have sorted := scan.ordered ordered
      rw [split] at sorted
      have exact_key := same
      rw [node_key] at exact_key
      rw [findPageNode_duplicate sorted chained no_end no_bucket exact_key below rfl fun _ => rfl,
        findPageNode, reached, bucket.nodeOutcome_duplicate there no_end same]
      rfl

theorem findPage_first {index : IndexFlags} {key : SearchKey} {find_record_number : Option Nat}
    {area : Area}
    (found : bucket.findAreaStartPoint retrieval key.key_data none
      (index.searchNumber key find_record_number) = .ok area) (start : area.start = 0) :
    bucket.findPage retrieval index key find_record_number =
      bucket.findPageFrom retrieval key.key_data (index.searchNumber key find_record_number) 0 0 := by
  obtain ⟨first, others, nodes⟩ := bucket.nodes_ne_nil
  rw [findPage, found]
  simp only [bind, Except.bind, start, List.drop_zero, nodes, ite_self, findPageFrom, if_true]

/-- Jump nodes do not change the page that is found. -/
theorem findPage_jumps (index : IndexFlags) (key : SearchKey) (find_record_number : Option Nat)
    (searched : find_record_number ≠ none →
      retrieval = false ∧ RecordsOrdered key.key_data none bucket.nodes) :
    bucket.findPage retrieval index key find_record_number =
      bucket.withoutJumps.findPage retrieval index key find_record_number := by
  have kept : index.searchNumber key find_record_number ≠ none → find_record_number ≠ none := by
    intro some_number nothing
    rw [nothing, IndexFlags.searchNumber] at some_number
    exact some_number (ite_self none)
  obtain ⟨area, found, landed, -⟩ := @findAreaStartPoint_landed descending retrieval bucket
    key.key_data none (index.searchNumber key find_record_number)
  rw [bucket.withoutJumps.findPage_first rfl rfl]
  by_cases start : area.start = 0
  · exact bucket.findPage_first found start
  · refine Eq.trans ?_
      (bucket.findPageFrom_landed landed start fun some_number => searched (kept some_number))
    rw [findPage, found]
    rcases landed with ⟨impossible, -⟩ | ⟨node, there, no_bucket, no_end, -⟩
    · exact absurd impossible start
    · obtain ⟨front, rest, split, place⟩ := split_at there
      have later : bucket.nodes.drop area.start = node :: rest := by
        rw [split, place]
        exact List.drop_left
      simp only [bind, Except.bind]
      rw [later]
      simp only [no_bucket, no_end, Bool.false_eq_true, or_self, if_false]

/-- What the jump-node area does to a search.  Without a record number the node, the returned prefix
and the key in `value` are those of a scan from the first node.  With one the search may start at a
later duplicate, behind duplicates with smaller record numbers.  The child page is always the same. -/
theorem jumpNodes_refine (bucket : Bucket descending) (key : SearchKey) :
    (∀ (retrieval pointer_by_marker : Bool) (value other : Option (List UInt8)),
      (bucket.findNodeStartPoint retrieval key value pointer_by_marker none).map Prod.fst =
        (bucket.withoutJumps.findNodeStartPoint retrieval key other pointer_by_marker none).map
          Prod.fst) ∧
    (∀ (retrieval pointer_by_marker : Bool) (value after : Option (List UInt8))
      (pointer keyPrefix : Nat),
      (bucket.findNodeStartPoint retrieval key value pointer_by_marker none =
          .ok (some (pointer, keyPrefix), after) ∨
        bucket.withoutJumps.findNodeStartPoint retrieval key value pointer_by_marker none =
          .ok (some (pointer, keyPrefix), after)) →
        Holds after (keyAt bucket.nodes pointer)) ∧
    (∀ (pointer_by_marker : Bool) (value other : Option (List UInt8)) (find_record_number : Nat),
      RecordsOrdered key.key_data none bucket.nodes →
        (bucket.findNodeStartPoint false key value pointer_by_marker
              (some find_record_number)).map Prod.fst =
            (bucket.withoutJumps.findNodeStartPoint false key other pointer_by_marker
              (some find_record_number)).map Prod.fst ∨
          ∃ scanned scannedPrefix jumped jumpedPrefix, scanned ≤ jumped ∧
            (bucket.withoutJumps.findNodeStartPoint false key other pointer_by_marker
              (some find_record_number)).map Prod.fst = .ok (some (scanned, scannedPrefix)) ∧
            (bucket.findNodeStartPoint false key value pointer_by_marker
              (some find_record_number)).map Prod.fst = .ok (some (jumped, jumpedPrefix)) ∧
            keyAt bucket.nodes jumped = key.key_data ∧
            ∀ place < jumped, scanned ≤ place → ∃ duplicate,
              bucket.nodes[place]? = some duplicate ∧ keyAt bucket.nodes place = key.key_data ∧
              duplicate.recordNumber < find_record_number) ∧
    ∀ (index : IndexFlags) (retrieval : Bool) (find_record_number : Option Nat),
      (find_record_number ≠ none →
        retrieval = false ∧ RecordsOrdered key.key_data none bucket.nodes) →
        bucket.findPage retrieval index key find_record_number =
          bucket.withoutJumps.findPage retrieval index key find_record_number := by
  refine ⟨?_, ?_, ?_, ?_⟩
  · intro retrieval pointer_by_marker value other
    exact bucket.findNodeStartPoint_jumps key value other pointer_by_marker
  · rintro retrieval pointer_by_marker value after pointer keyPrefix (run | run)
    · exact bucket.findNodeStartPoint_holds run
    · exact bucket.withoutJumps.findNodeStartPoint_holds run
  · intro pointer_by_marker value other find_record_number ordered
    exact bucket.findNodeStartPoint_duplicates key value other pointer_by_marker
      find_record_number ordered
  · intro index retrieval find_record_number searched
    exact bucket.findPage_jumps index key find_record_number searched

/-- A leaf page with 450 records that have the key `"a"`, and two jump nodes. -/
def duplicateLeaf : Bucket false where
  btr_level := 0
  jumpNodes := [⟨0, [97], 200⟩, ⟨1, [], 400⟩]
  nodes := ⟨0, [97], 1, 0, false, false⟩ ::
    ((List.range 449).map fun number => ⟨1, [], number + 2, 0, false, false⟩) ++
      [⟨0, [], 0, 0, false, true⟩]
  chained := .inl (by decide +kernel)
  jumps := by decide +kernel

/-- For record 420 the search starts at the 200th duplicate, a scan from the first node at the
first. -/
theorem duplicateLeaf_findNodeStartPoint :
    (duplicateLeaf.findNodeStartPoint false ⟨[97], 0⟩ none true (some 420)).map Prod.fst =
        .ok (some (200, 1)) ∧
      (duplicateLeaf.withoutJumps.findNodeStartPoint false ⟨[97], 0⟩ none true (some 420)).map
        Prod.fst = .ok (some (0, 0)) := by
  constructor
  · rfl
  · rfl

/-- The searches for `"a"` in this page. -/
theorem jumpNodes_refine_duplicateLeaf :
    (duplicateLeaf.findNodeStartPoint true ⟨[97], 0⟩ none false none).map Prod.fst =
        (duplicateLeaf.withoutJumps.findNodeStartPoint true ⟨[97], 0⟩ none false none).map
          Prod.fst ∧
      Holds (some [97, 0]) (keyAt duplicateLeaf.nodes 0) ∧
      duplicateLeaf.findPage false ⟨1, false, false⟩ ⟨[97], 0⟩ (some 420) =
        duplicateLeaf.withoutJumps.findPage false ⟨1, false, false⟩ ⟨[97], 0⟩ (some 420) := by
  obtain ⟨same, holds, -, page⟩ := jumpNodes_refine duplicateLeaf ⟨[97], 0⟩
  refine ⟨same true false none none, ?_, ?_⟩
  · exact holds true false (some [0, 0]) _ 0 0 (.inl rfl)
  · exact page ⟨1, false, false⟩ false (some 420) fun _ => ⟨rfl, by decide +kernel⟩

end Bucket

end Firebird
