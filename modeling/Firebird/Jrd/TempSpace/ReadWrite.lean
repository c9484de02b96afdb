import Firebird.Jrd.TempSpace.Extend

/-!
# Reading and writing a temporary space

`read` and `write` find the block of an offset from the nearer end of the chain and go on from there.
The bytes of the blocks, one behind the other, are the contents of the space; growing adds to their
end, and writing puts bytes in their place.
-/

namespace Firebird
namespace TempSpace

/-- Bytes written over other bytes from an offset on. -/
def overwriteAt (bytes : List UInt8) (offset : Nat) (data : List UInt8) : List UInt8 :=
  bytes.take offset ++ overwrite (bytes.drop offset) data

/-- `findBlock` from `head`; the number of the block and the offset in it. -/
def walkForward : List Block → Nat → Nat → Option (Nat × Nat)
  | [], _, _ => none
  | block :: rest, index, offset =>
      if block.size ≤ offset then walkForward rest (index + 1) (offset - block.size)
      else some (index, offset)

/-- `findBlock` from `tail`; the blocks are in the order of the walk. -/
def walkBackward (physicalSize : Nat) : List Block → Nat → Option (Nat × Nat)
  | [], _ => none
  | block :: rest, offset =>
      if block.size < physicalSize - offset then walkBackward physicalSize rest (offset + block.size)
      else some (rest.length, offset - (physicalSize - block.size))

/-- `TempSpace::findBlock`. -/
def findBlock (space : Space) (offset : Nat) : Option (Nat × Nat) :=
  if offset < space.physicalSize / 2 then walkForward space.blocks 0 offset
  else walkBackward space.physicalSize space.blocks.reverse offset

/-- The bytes of one of the temporary files. -/
def fileBytes (files : List TempFile) (file : Nat) : List UInt8 :=
  (files[file]?).elim [] TempFile.bytes

/-- The bytes of a block. -/
def Block.bytes (space : Space) : Block → List UInt8
  | initial _ => space.initialBuffer
  | memory bytes => bytes
  | file index seek size => ((fileBytes space.tempFiles index).drop seek).take size

/-- The bytes of the block are there. -/
def Block.Inside (space : Space) : Block → Prop
  | initial size => space.initialBuffer.length = size
  | memory _ => True
  | file index seek size => seek + size ≤ (fileBytes space.tempFiles index).length

/-- The loop of `read` over the blocks from the found one on. -/
def readBlocks (space : Space) : List Block → (offset length : Nat) → List UInt8
  | [], _, _ => []
  | block :: rest, offset, length =>
      if length = 0 then []
      else
        let n := if block.size < offset + length then block.size - offset else length
        ((block.bytes space).drop offset).take n ++ readBlocks space rest 0 (length - n)

/-- `TempSpace::read`. -/
def read (space : Space) (offset length : Nat) : List UInt8 :=
  if length = 0 then []
  else (findBlock space offset).elim [] fun found =>
    readBlocks space (space.blocks.drop found.1) found.2 length

/-- `Block::write`, for as many bytes as the block has room for. -/
def writeBlock (space : Space) (index offset : Nat) (data : List UInt8) : Space :=
  match space.blocks[index]? with
  | none => space
  | some (.initial _) => { space with initialBuffer := overwriteAt space.initialBuffer offset data }
  | some (.memory bytes) =>
      { space with blocks := space.blocks.set index (.memory (overwriteAt bytes offset data)) }
  | some (.file file seek _) =>
      { space with
        tempFiles := space.tempFiles.modify file fun temp =>
          { temp with bytes := overwriteAt temp.bytes (seek + offset) data } }

/-- The loop of `write` over the blocks from the found one on. -/
def writeBlocks : List Block → (index offset : Nat) → List UInt8 → Space → Space
  | [], _, _, _, space => space
  | block :: rest, index, offset, data, space =>
      if data = [] then space
      else
        let n := if block.size < offset + data.length then block.size - offset else data.length
        writeBlocks rest (index + 1) 0 (data.drop n) (writeBlock space index offset (data.take n))

/-- `TempSpace::write`. -/
def write (around : Surroundings) (space : Space) (offset : Nat) (data : List UInt8) : Outcome :=
  let grown :=
    if space.logicalSize < offset + data.length then
      extend around space (offset + data.length - space.logicalSize)
    else .done space
  match grown with
  | .outOfTempSpace space => .outOfTempSpace space
  | .done space =>
      if data = [] then .done space
      else .done ((findBlock space offset).elim space fun found =>
        writeBlocks (space.blocks.drop found.1) found.1 found.2 data space)

/-- The bytes of a space, without the limits of its blocks. -/
def contents (space : Space) : List UInt8 := space.blocks.flatMap (Block.bytes space)

/-- Two blocks of one file lie one behind the other. -/
def Behind : Block → Block → Prop
  | .file first seek size, .file second seek' _ => first = second → seek + size ≤ seek'
  | _, _ => True

/-- The sizes, the chain of blocks, the initial buffer and the files agree. -/
structure Sound (space : Space) : Prop where
  physical : space.physicalSize = (space.blocks.map Block.size).sum
  logical : space.logicalSize ≤ space.physicalSize
  inside : ∀ block ∈ space.blocks, block.Inside space
  ordered : space.blocks.Pairwise Behind
  /-- The small block is the only one, as long as there is one. -/
  initial : space.initialBuffer = [] ∧ (∀ size, .initial size ∉ space.blocks) ∧
      (space.initiallyDynamic → space.blocks = [] ∨ MIN_TEMP_BLOCK_SIZE ≤ space.logicalSize) ∨
    space.blocks = [.initial space.initialBuffer.length] ∧ 0 < space.initialBuffer.length ∧
      space.logicalSize = space.initialBuffer.length ∧ space.logicalSize < MIN_TEMP_BLOCK_SIZE

/-! ## Bytes over bytes -/

theorem overwriteAt_nil (bytes : List UInt8) (offset : Nat) : overwriteAt bytes offset [] = bytes := by
  rw [overwriteAt, overwrite, List.nil_append, List.length_nil, List.drop_zero,
    List.take_append_drop]

theorem length_overwriteAt {bytes data : List UInt8} {offset : Nat}
    (room : offset + data.length ≤ bytes.length) :
    (overwriteAt bytes offset data).length = bytes.length := by
  simp only [overwriteAt, overwrite, List.length_append, List.length_take, List.length_drop]
  omega

theorem getElem?_overwriteAt {bytes data : List UInt8} {offset : Nat}
    (room : offset + data.length ≤ bytes.length) (position : Nat) :
    (overwriteAt bytes offset data)[position]? =
      if offset ≤ position ∧ position < offset + data.length then data[position - offset]?
      else bytes[position]? := by
  have front : (bytes.take offset).length = offset := List.length_take_of_le (by omega)
  rw [overwriteAt, overwrite]
  rcases Nat.lt_or_ge position offset with before | behind
  · rw [List.getElem?_append_left (by omega), List.getElem?_take_of_lt before, if_neg (by omega)]
  · rw [List.getElem?_append_right (by omega), front]
    by_cases inside : position < offset + data.length
    · rw [List.getElem?_append_left (by omega), if_pos ⟨behind, inside⟩]
    · rw [List.getElem?_append_right (by omega), if_neg (by omega), List.getElem?_drop,
        List.getElem?_drop]
      congr 1
      omega

theorem overwriteAt_append_left {first second data : List UInt8} {offset : Nat}
    (room : offset + data.length ≤ first.length) :
    overwriteAt (first ++ second) offset data = overwriteAt first offset data ++ second := by
  simp only [overwriteAt, overwrite]
  rw [List.take_append_of_le_length (by omega), List.drop_append_of_le_length (by omega),
    List.drop_append_of_le_length (by rw [List.length_drop]; omega), List.append_assoc,
    List.append_assoc]

theorem overwriteAt_append_right (first second data : List UInt8) (offset : Nat) :
    overwriteAt (first ++ second) (first.length + offset) data =
      first ++ overwriteAt second offset data := by
  simp only [overwriteAt, List.take_length_add_append, List.drop_length_add_append,
    List.append_assoc]

/-- Two parts of what is written, one behind the other. -/
theorem overwriteAt_append {bytes first second : List UInt8} {offset : Nat}
    (room : offset + first.length ≤ bytes.length) :
    overwriteAt (overwriteAt bytes offset first) (offset + first.length) second =
      overwriteAt bytes offset (first ++ second) := by
  have front : (bytes.take offset).length = offset := List.length_take_of_le (by omega)
  have split : overwriteAt bytes offset first =
      (bytes.take offset ++ first) ++ bytes.drop (offset + first.length) := by
    rw [overwriteAt, overwrite, List.drop_drop, List.append_assoc]
  have length_eq : (bytes.take offset ++ first).length = offset + first.length := by
    rw [List.length_append, front]
  have moved := overwriteAt_append_right (bytes.take offset ++ first)
    (bytes.drop (offset + first.length)) second 0
  rw [length_eq, Nat.add_zero, ← split] at moved
  rw [moved]
  simp only [overwriteAt, overwrite, List.take_zero, List.nil_append, List.drop_drop,
    List.length_append, List.append_assoc, Nat.add_assoc, Nat.zero_add]

/-- A part of the bytes that holds all that is written. -/
theorem slice_overwriteAt {bytes data : List UInt8} {seek size offset : Nat}
    (room : offset + data.length ≤ size) (inside : seek + size ≤ bytes.length) :
    ((overwriteAt bytes (seek + offset) data).drop seek).take size =
      overwriteAt ((bytes.drop seek).take size) offset data := by
  have slice_length : ((bytes.drop seek).take size).length = size := by
    rw [List.length_take, List.length_drop]
    omega
  refine List.ext_getElem? fun position => ?_
  rw [getElem?_overwriteAt (by omega)]
  rcases Nat.lt_or_ge position size with before | behind
  · rw [List.getElem?_take_of_lt before, List.getElem?_drop, getElem?_overwriteAt (by omega),
      List.getElem?_take_of_lt before, List.getElem?_drop]
    by_cases here : offset ≤ position ∧ position < offset + data.length
    · rw [if_pos here, if_pos (by omega), Nat.add_sub_add_left]
    · rw [if_neg here, if_neg (by omega)]
  · rw [List.getElem?_eq_none (by rw [List.length_take]; omega), if_neg (by omega),
      List.getElem?_eq_none (by omega)]

/-- A part of the bytes apart from what is written. -/
theorem slice_overwriteAt_apart {bytes data : List UInt8} {seek size offset : Nat}
    (room : offset + data.length ≤ bytes.length)
    (apart : seek + size ≤ offset ∨ offset + data.length ≤ seek) :
    ((overwriteAt bytes offset data).drop seek).take size = (bytes.drop seek).take size := by
  refine List.ext_getElem? fun position => ?_
  rcases Nat.lt_or_ge position size with before | behind
  · rw [List.getElem?_take_of_lt before, List.getElem?_take_of_lt before, List.getElem?_drop,
      List.getElem?_drop, getElem?_overwriteAt room, if_neg (by omega)]
  · rw [List.getElem?_eq_none (by rw [List.length_take]; omega),
      List.getElem?_eq_none (by rw [List.length_take]; omega)]

/-! ## The blocks of a space -/

variable {space after : Space} {around : Surroundings} {block : Block} {front rest : List Block}

theorem sum_sizes (space : Space) :
    ∀ blocks : List Block, (∀ block ∈ blocks, (block.bytes space).length = block.size) →
      (blocks.flatMap (Block.bytes space)).length = (blocks.map Block.size).sum
  | [], _ => rfl
  | block :: rest, length_eq => by
      rw [List.flatMap_cons, List.length_append, length_eq block List.mem_cons_self,
        sum_sizes space rest fun other member => length_eq other (List.mem_cons_of_mem _ member)]
      rfl

theorem Block.Inside.length_eq (inside : block.Inside space) :
    (block.bytes space).length = block.size := by
  cases block with
  | initial size => exact inside
  | memory bytes => rfl
  | file index seek size =>
      rw [Block.Inside] at inside
      rw [Block.bytes, List.length_take, List.length_drop, Block.size]
      omega

theorem Sound.length_eq (sound : Sound space) :
    ∀ block ∈ space.blocks, (block.bytes space).length = block.size :=
  fun block member => (sound.inside block member).length_eq

theorem Sound.length_contents (sound : Sound space) :
    (contents space).length = space.physicalSize := by
  rw [contents, sum_sizes space _ sound.length_eq, sound.physical]

/-- The block that is found holds the offset. -/
theorem walkForward_finds (blocks : List Block) {index offset : Nat}
    (inside : offset < (blocks.map Block.size).sum) :
    ∃ front block rest local_offset, blocks = front ++ block :: rest ∧
      walkForward blocks index offset = some (index + front.length, local_offset) ∧
      local_offset < block.size ∧ (front.map Block.size).sum + local_offset = offset := by
  induction blocks generalizing index offset with
  | nil => cases inside
  | cons block blocks ih =>
      rw [List.map_cons, List.sum_cons] at inside
      by_cases behind : block.size ≤ offset
      · have inside : offset - block.size < (blocks.map Block.size).sum := by omega
        obtain ⟨front, found, rest, local_offset, rfl, walk, less, sum_eq⟩ := @ih (index + 1) _ inside
        refine ⟨block :: front, found, rest, local_offset, rfl, ?_, less, ?_⟩
        · rw [walkForward, if_pos behind, walk, List.length_cons, Nat.add_assoc, Nat.add_comm 1]
        · rw [List.map_cons, List.sum_cons]
          omega
      · refine ⟨[], block, blocks, offset, rfl, ?_, Nat.lt_of_not_le behind, Nat.zero_add _⟩
        rw [walkForward, if_neg behind]
        rfl

theorem walkBackward_finds (blocks : List Block) {offset passed physicalSize : Nat}
    (physical : physicalSize = (blocks.map Block.size).sum + passed)
    (inside : offset < (blocks.map Block.size).sum) :
    ∃ front block rest local_offset, blocks = front ++ block :: rest ∧
      walkBackward physicalSize blocks.reverse (offset + passed) =
        some (front.length, local_offset) ∧
      local_offset < block.size ∧ (front.map Block.size).sum + local_offset = offset := by
  induction blocks using List.reverseRecOn generalizing passed with
  | nil => cases inside
  | append_singleton blocks block ih =>
      rw [List.map_append, List.sum_append, List.map_singleton, List.sum_singleton] at physical inside
      rw [List.reverse_concat, walkBackward]
      by_cases before : offset < (blocks.map Block.size).sum
      · obtain ⟨front, found, rest, local_offset, rfl, walk, less, sum_eq⟩ :=
          @ih (block.size + passed) (by omega) before
        refine ⟨front, found, rest ++ [block], local_offset, ?_, ?_, less, sum_eq⟩
        · rw [List.append_assoc, List.cons_append]
        · rw [if_pos (by omega), ← walk]
          congr 1
          omega
      · refine ⟨blocks, block, [], offset - (blocks.map Block.size).sum, rfl, ?_, by omega,
          by omega⟩
        rw [if_neg (by omega), List.length_reverse]
        congr 2
        omega

/-- `findBlock` from either end of the chain. -/
theorem Sound.findBlock (sound : Sound space) {offset : Nat}
    (inside : offset < space.physicalSize) :
    ∃ front block rest local_offset, space.blocks = front ++ block :: rest ∧
      TempSpace.findBlock space offset = some (front.length, local_offset) ∧
      local_offset < block.size ∧
      (front.flatMap (Block.bytes space)).length + local_offset = offset := by
  have inside_sum := inside
  rw [sound.physical] at inside_sum
  have finds : ∃ front block rest local_offset, space.blocks = front ++ block :: rest ∧
      TempSpace.findBlock space offset = some (front.length, local_offset) ∧
      local_offset < block.size ∧ (front.map Block.size).sum + local_offset = offset := by
    rw [TempSpace.findBlock]
    split
    · have finds := @walkForward_finds space.blocks 0 offset inside_sum
      simpa only [Nat.zero_add] using finds
    · exact @walkBackward_finds space.blocks offset 0 _ sound.physical inside_sum
  obtain ⟨front, block, rest, local_offset, blocks_eq, found, less, sum_eq⟩ := finds
  refine ⟨front, block, rest, local_offset, blocks_eq, found, less, ?_⟩
  rw [sum_sizes space front fun other member => sound.length_eq other
    (blocks_eq ▸ List.mem_append_left _ member)]
  exact sum_eq

theorem readBlocks_eq (blocks : List Block)
    (length_eq : ∀ block ∈ blocks, (block.bytes space).length = block.size) {offset length : Nat}
    (starts : ∀ block ∈ blocks.head?, offset ≤ block.size)
    (room : offset + length ≤ (blocks.flatMap (Block.bytes space)).length) :
    readBlocks space blocks offset length =
      ((blocks.flatMap (Block.bytes space)).drop offset).take length := by
  induction blocks generalizing offset length with
  | nil => rw [readBlocks, List.flatMap_nil, List.drop_nil, List.take_nil]
  | cons block rest ih =>
      have block_length := length_eq block List.mem_cons_self
      have start_le := starts block rfl
      rw [List.flatMap_cons, List.length_append] at room
      rw [readBlocks, List.flatMap_cons, List.drop_append_of_le_length (by omega)]
      by_cases nothing : length = 0
      · rw [if_pos nothing, nothing, List.take_zero]
      · rw [if_neg nothing]
        dsimp only
        by_cases beyond : block.size < offset + length
        · rw [if_pos beyond]
          have later := @ih (fun other member => length_eq other (List.mem_cons_of_mem _ member)) 0
            (length - (block.size - offset)) (fun _ _ => Nat.zero_le _) (by omega)
          have first_length : ((block.bytes space).drop offset).length = block.size - offset := by
            rw [List.length_drop, block_length]
          have whole : ((block.bytes space).drop offset).length ≤ length := by omega
          rw [later, List.drop_zero, List.take_of_length_le first_length.le, List.take_append,
            first_length, List.take_of_length_le whole]
        · rw [if_neg beyond, Nat.sub_self, List.take_append_of_le_length
            (by rw [List.length_drop]; omega)]
          cases rest with
          | nil => rw [readBlocks, List.append_nil]
          | cons other rest => rw [readBlocks, if_pos rfl, List.append_nil]

/-- What is read are the contents at the offset. -/
theorem Sound.read_eq (sound : Sound space) {offset length : Nat}
    (room : offset + length ≤ space.logicalSize) :
    read space offset length = ((contents space).drop offset).take length := by
  rw [read]
  by_cases nothing : length = 0
  · rw [if_pos nothing, nothing, List.take_zero]
  · have logical := sound.logical
    obtain ⟨front, block, rest, local_offset, blocks_eq, found, less, start_eq⟩ :=
      sound.findBlock (show offset < space.physicalSize by omega)
    have length_contents := sound.length_contents
    rw [if_neg nothing, found, Option.elim_some]
    rw [contents, blocks_eq, List.flatMap_append] at length_contents ⊢
    rw [List.length_append] at length_contents
    have length_eq := sound.length_eq
    rw [blocks_eq] at length_eq
    rw [List.drop_left, ← start_eq, List.drop_length_add_append]
    refine readBlocks_eq _ (fun other member => length_eq other (List.mem_append_right _ member))
      ?_ (by omega)
    intro first is_first
    obtain rfl := Option.some.inj is_first
    exact less.le

/-! ## Writing -/

/-- What the bytes of a block are replaced by is seen in the contents at its place. -/
theorem contents_overwriteAt {written : Block} {offset : Nat} {data : List UInt8}
    (blocks_eq : space.blocks = front ++ block :: rest)
    (after_eq : after.blocks = front ++ written :: rest)
    (others : ∀ other ∈ front ++ rest, other.bytes after = other.bytes space)
    (bytes_eq : written.bytes after = overwriteAt (block.bytes space) offset data)
    (room : offset + data.length ≤ (block.bytes space).length) :
    contents after =
      overwriteAt (contents space) ((front.flatMap (Block.bytes space)).length + offset) data := by
  have same : ∀ blocks : List Block, (∀ other ∈ blocks, other ∈ front ++ rest) →
      blocks.flatMap (Block.bytes after) = blocks.flatMap (Block.bytes space) := by
    intro blocks among
    exact List.flatMap_congr fun other member => others other (among other member)
  rw [contents, contents, after_eq, blocks_eq, List.flatMap_append, List.flatMap_append,
    List.flatMap_cons, List.flatMap_cons, bytes_eq,
    same front fun _ member => List.mem_append_left _ member,
    same rest fun _ member => List.mem_append_right _ member, overwriteAt_append_right,
    overwriteAt_append_left room]

/-- The temporary files after bytes were written to one of them. -/
theorem fileBytes_write (files : List TempFile) {file place : Nat} {data : List UInt8}
    (room : place + data.length ≤ (fileBytes files file).length) (index : Nat) :
    fileBytes (files.modify file fun temp =>
        { temp with bytes := overwriteAt temp.bytes place data }) index =
      if file = index then overwriteAt (fileBytes files index) place data
      else fileBytes files index := by
  rw [fileBytes, fileBytes, List.getElem?_modify]
  split
  · rename_i same
    subst same
    cases there : files[file]? with
    | none =>
        rw [fileBytes, there, Option.elim_none, List.length_nil] at room
        have empty : data = [] := List.eq_nil_of_length_eq_zero (by omega)
        rw [empty, overwriteAt_nil]
        rfl
    | some temp => rfl
  · cases files[index]? <;> rfl

/-- A block of a file that lies apart from another one is not touched. -/
theorem bytes_write_apart {file seek size offset : Nat} {data : List UInt8} {other : Block}
    (inside : seek + size ≤ (fileBytes space.tempFiles file).length)
    (room : offset + data.length ≤ size)
    (apart : Behind other (.file file seek size) ∨ Behind (.file file seek size) other) :
    other.bytes { space with
        tempFiles := space.tempFiles.modify file fun temp =>
          { temp with bytes := overwriteAt temp.bytes (seek + offset) data } } =
      other.bytes space := by
  cases other with
  | initial _ => rfl
  | memory _ => rfl
  | file index other_seek other_size =>
      rw [Block.bytes, Block.bytes, fileBytes_write space.tempFiles (by omega)]
      split
      · rename_i same
        subst same
        refine slice_overwriteAt_apart (by omega) ?_
        rcases apart with before | behind
        · exact .inl ((before rfl).trans (Nat.le_add_right _ _))
        · have after_end := behind rfl
          exact .inr (by omega)
      · rfl

/-- Bytes that go into one block. -/
theorem Sound.writeBlock (sound : Sound space) (blocks_eq : space.blocks = front ++ block :: rest)
    {offset : Nat} {data : List UInt8} (room : offset + data.length ≤ block.size) :
    Sound (TempSpace.writeBlock space front.length offset data) ∧
      (∃ written, (TempSpace.writeBlock space front.length offset data).blocks =
        front ++ written :: rest ∧ written.size = block.size) ∧
      (TempSpace.writeBlock space front.length offset data).logicalSize = space.logicalSize ∧
      (TempSpace.writeBlock space front.length offset data).physicalSize = space.physicalSize ∧
      contents (TempSpace.writeBlock space front.length offset data) =
        overwriteAt (contents space) ((front.map Block.size).sum + offset) data := by
  have there : space.blocks[front.length]? = some block := by rw [blocks_eq]; simp
  have member : block ∈ space.blocks := List.mem_of_getElem? there
  have block_length := sound.length_eq block member
  have others_member : ∀ other ∈ front ++ rest, other ∈ space.blocks := by
    intro other among
    rw [blocks_eq]
    simp only [List.mem_append, List.mem_cons] at among ⊢
    tauto
  rw [← sum_sizes space front fun other among =>
    sound.length_eq other (others_member other (List.mem_append_left _ among))]
  rw [TempSpace.writeBlock, there]
  cases block with
  | initial size =>
      dsimp only
      rcases sound.initial with ⟨-, no_initial, -⟩ | ⟨alone, positive, logical, small⟩
      · exact absurd member (no_initial size)
      · have length_eq := @length_overwriteAt space.initialBuffer data offset (by
          rw [← block_length] at room
          exact room)
        have nothing : front = [] ∧ rest = [] := by
          rw [blocks_eq] at alone
          have lengths := congrArg List.length alone
          rw [List.length_append, List.length_cons, List.length_singleton] at lengths
          exact ⟨List.eq_nil_of_length_eq_zero (by omega), List.eq_nil_of_length_eq_zero (by omega)⟩
        obtain ⟨rfl, rfl⟩ := nothing
        refine ⟨⟨sound.physical, sound.logical, ?_, sound.ordered, .inr ?_⟩,
          ⟨_, blocks_eq, rfl⟩, rfl, rfl, ?_⟩
        · intro other among
          obtain rfl := List.mem_singleton.mp (alone ▸ among)
          exact length_eq
        · dsimp only
          rw [length_eq]
          exact ⟨alone, positive, logical, small⟩
        · exact contents_overwriteAt blocks_eq blocks_eq (fun _ among => by cases among) rfl
            (block_length ▸ room)
  | memory bytes =>
      dsimp only
      have bytes_length : (overwriteAt bytes offset data).length = bytes.length :=
        length_overwriteAt room
      have set_eq : space.blocks.set front.length (.memory (overwriteAt bytes offset data)) =
          front ++ .memory (overwriteAt bytes offset data) :: rest := by
        rw [blocks_eq, List.set_append_right _ _ (Nat.le_refl _), Nat.sub_self, List.set_cons_zero]
      rw [set_eq]
      have kept : ∀ other ∈ front ++ rest, other.Inside { space with
          blocks := front ++ .memory (overwriteAt bytes offset data) :: rest } := by
        intro other among
        have inside := sound.inside other (others_member other among)
        cases other <;> exact inside
      refine ⟨⟨?_, sound.logical, ?_, ?_, .inl ?_⟩, ⟨_, rfl, bytes_length⟩, rfl, rfl, ?_⟩
      · have physical := sound.physical
        rw [blocks_eq] at physical
        simp only [List.map_append, List.map_cons, List.sum_append, List.sum_cons, Block.size,
          bytes_length] at physical ⊢
        exact physical
      · intro other among
        simp only [List.mem_append, List.mem_cons] at among
        rcases among with before | rfl | behind
        · exact kept other (List.mem_append_left _ before)
        · trivial
        · exact kept other (List.mem_append_right _ behind)
      · have ordered := sound.ordered
        rw [blocks_eq, List.pairwise_append, List.pairwise_cons] at ordered
        refine List.pairwise_append.mpr ⟨ordered.1, List.pairwise_cons.mpr ⟨?_, ordered.2.1.2⟩, ?_⟩
        · intro other _
          cases other <;> trivial
        · intro first first_mem other among
          rcases List.mem_cons.mp among with rfl | among
          · cases first <;> trivial
          · exact ordered.2.2 first first_mem other (List.mem_cons_of_mem _ among)
      · rcases sound.initial with ⟨empty, no_initial, dynamic⟩ | ⟨alone, -⟩
        · refine ⟨empty, fun size among => ?_, fun initially => ?_⟩
          · simp only [List.mem_append, List.mem_cons, reduceCtorEq, false_or] at among
            exact no_initial size (others_member _ (List.mem_append.mpr among))
          · rcases dynamic initially with none_there | large
            · rw [none_there] at there
              cases there
            · exact .inr large
        · rw [alone] at member
          cases List.mem_singleton.mp member
      · exact contents_overwriteAt blocks_eq rfl (fun other _ => by cases other <;> rfl) rfl room
  | file file seek size =>
      dsimp only
      have ordered := sound.ordered
      rw [blocks_eq, List.pairwise_append, List.pairwise_cons] at ordered
      have inside : seek + size ≤ (fileBytes space.tempFiles file).length :=
        sound.inside _ member
      have room : offset + data.length ≤ size := room
      have written := @fileBytes_write space.tempFiles file (seek + offset) data (by omega)
      have others : ∀ other ∈ front ++ rest, other.bytes { space with
          tempFiles := space.tempFiles.modify file fun temp =>
            { temp with bytes := overwriteAt temp.bytes (seek + offset) data } } =
          other.bytes space := by
        intro other among
        refine bytes_write_apart inside room ?_
        rcases List.mem_append.mp among with before | behind
        · exact .inl (ordered.2.2 other before _ List.mem_cons_self)
        · exact .inr (ordered.2.1.1 other behind)
      refine ⟨⟨sound.physical, sound.logical, ?_, sound.ordered, sound.initial⟩,
        ⟨_, blocks_eq, rfl⟩, rfl, rfl,
        contents_overwriteAt blocks_eq blocks_eq others ?_ (block_length ▸ room)⟩
      · intro other among
        have there := sound.inside other among
        cases other with
        | initial _ => exact there
        | memory _ => trivial
        | file index other_seek other_size =>
            rw [Block.Inside] at there ⊢
            rw [written]
            split
            · rw [length_overwriteAt (by rename_i same; subst same; omega)]
              exact there
            · exact there
      · rw [Block.bytes, Block.bytes, written, if_pos rfl]
        exact slice_overwriteAt room inside

/-- The loop of `write` puts the bytes in their place. -/
theorem Sound.writeBlocks (sound : Sound space) (blocks_eq : space.blocks = front ++ rest)
    {offset : Nat} {data : List UInt8} (starts : ∀ block ∈ rest.head?, offset ≤ block.size)
    (room : offset + data.length ≤ (rest.map Block.size).sum) :
    Sound (TempSpace.writeBlocks rest front.length offset data space) ∧
      (TempSpace.writeBlocks rest front.length offset data space).logicalSize =
        space.logicalSize ∧
      contents (TempSpace.writeBlocks rest front.length offset data space) =
        overwriteAt (contents space) ((front.map Block.size).sum + offset) data := by
  induction rest generalizing space front offset data with
  | nil =>
      have empty : data = [] := List.eq_nil_of_length_eq_zero (by
        rw [List.map_nil, List.sum_nil] at room
        omega)
      rw [TempSpace.writeBlocks, empty, overwriteAt_nil]
      exact ⟨sound, rfl, rfl⟩
  | cons block rest ih =>
      rw [TempSpace.writeBlocks]
      by_cases empty : data = []
      · rw [if_pos empty, empty, overwriteAt_nil]
        exact ⟨sound, rfl, rfl⟩
      · rw [if_neg empty]
        dsimp only
        have start_le := starts block rfl
        rw [List.map_cons, List.sum_cons] at room
        generalize n_eq : (if block.size < offset + data.length then block.size - offset
          else data.length) = n
        have n_le : n ≤ data.length ∧ offset + n ≤ block.size ∧
            (offset + n = block.size ∨ n = data.length) := by
          split_ifs at n_eq <;> omega
        have take_length : (data.take n).length = n := List.length_take_of_le n_le.1
        obtain ⟨first_sound, ⟨written, first_blocks, size_eq⟩, first_logical, first_physical,
          first_contents⟩ := sound.writeBlock blocks_eq (by rw [take_length]; exact n_le.2.1)
        have length_le : (contents space).length =
            (front.map Block.size).sum + (block.size + (rest.map Block.size).sum) := by
          rw [sound.length_contents, sound.physical, blocks_eq, List.map_append, List.sum_append,
            List.map_cons, List.sum_cons]
        have later_blocks : (TempSpace.writeBlock space front.length offset (data.take n)).blocks =
            (front ++ [written]) ++ rest := by rw [first_blocks, List.append_assoc]; rfl
        have drop_length : (data.drop n).length = data.length - n := List.length_drop
        obtain ⟨later_sound, later_logical, later_contents⟩ :=
          @ih _ (front ++ [written]) first_sound later_blocks 0 (data.drop n)
            (fun _ _ => Nat.zero_le _) (by omega)
        rw [List.length_append, List.length_singleton] at later_sound later_logical later_contents
        refine ⟨later_sound, later_logical.trans first_logical, later_contents.trans ?_⟩
        rw [first_contents, List.map_append, List.sum_append, List.map_singleton,
          List.sum_singleton, size_eq]
        by_cases whole : n = data.length
        · rw [whole, List.drop_length, List.take_length, overwriteAt_nil]
        · have place_eq : (front.map Block.size).sum + block.size + 0 =
              (front.map Block.size).sum + offset + (data.take n).length := by omega
          rw [place_eq, overwriteAt_append (by omega), List.take_append_drop]

/-! ## Growing -/

theorem le_fbAlign (n : Nat) {b : Nat} (positive : 0 < b) : n ≤ fbAlign n b := by
  have mask_le : (n + b - 1) &&& (b - 1) ≤ b - 1 := Nat.and_le_right
  rw [fbAlign]
  omega

theorem fbAlign_le (n b : Nat) : fbAlign n b ≤ n + b - 1 := Nat.sub_le _ _

/-- New memory has the length that was asked for, and blocks are not empty. -/
structure Surroundings.Sound (around : Surroundings) : Prop where
  positive : 0 < around.minBlockSize
  newMemory_length : ∀ size bytes, around.newMemory size = some bytes → bytes.length = size
  newBytes_length : ∀ size, (around.newBytes size).length = size

theorem fileBytes_modify (files : List TempFile) (changed delta index : Nat) :
    fileBytes files index <+: fileBytes (files.modify changed (·.extend delta)) index := by
  rw [fileBytes, fileBytes, List.getElem?_modify]
  cases files[index]? with
  | none => exact List.nil_prefix
  | some file =>
      by_cases same : changed = index
      · simp [same, TempFile.extend]
      · simp [same]

theorem fileBytes_append (files : List TempFile) (added : TempFile) (index : Nat) :
    fileBytes files index <+: fileBytes (files ++ [added]) index := by
  rw [fileBytes, fileBytes]
  rcases Nat.lt_or_ge index files.length with before | behind
  · rw [List.getElem?_append_left before]
  · rw [List.getElem?_eq_none behind]
    exact List.nil_prefix

/-- Files only become longer, and the one that is taken by as much as was asked for. -/
structure Longer (files after : List TempFile) (size : Nat) (found : Option Nat) : Prop where
  kept : ∀ index, fileBytes files index <+: fileBytes after index
  room : ∀ file ∈ found, (fileBytes files file).length + size ≤ (fileBytes after file).length

theorem Longer.further {files middle after : List TempFile} {size : Nat} {found : Option Nat}
    (first : ∀ index, fileBytes files index <+: fileBytes middle index)
    (longer : Longer middle after size found) : Longer files after size found where
  kept index := (first index).trans (longer.kept index)
  room file taken :=
    le_trans (Nat.add_le_add_right (first file).length_le _) (longer.room file taken)

theorem setupFile_longer {size : Nat} (directories : List Nat) {files after : List TempFile}
    {found : Option Nat} (setup : setupFile around size directories files = (after, found)) :
    Longer files after size found := by
  induction directories generalizing files with
  | nil =>
      obtain ⟨rfl, rfl⟩ := Prod.mk.inj setup
      exact ⟨fun _ => List.prefix_rfl, fun _ none_found => by cases none_found⟩
  | cons directory directories ih =>
      rw [setupFile] at setup
      split at setup
      · rename_i index present
        split at setup
        · obtain ⟨rfl, rfl⟩ := Prod.mk.inj setup
          refine ⟨fileBytes_modify files index size, fun file taken => ?_⟩
          obtain rfl := Option.some.inj taken
          obtain ⟨bound, -⟩ := List.findIdx?_eq_some_iff_getElem.mp present
          rw [fileBytes, fileBytes, List.getElem?_modify, List.getElem?_eq_getElem bound]
          simp [TempFile.extend]
        · rename_i written _
          exact (ih setup).further (fileBytes_modify files index written)
      · split at setup
        · split at setup
          · obtain ⟨rfl, rfl⟩ := Prod.mk.inj setup
            refine ⟨fileBytes_append files _, fun file taken => ?_⟩
            obtain rfl := Option.some.inj taken
            rw [fileBytes, fileBytes, List.getElem?_eq_none (Nat.le_refl _),
              List.getElem?_concat_length]
            simp [TempFile.extend]
          · exact (ih setup).further (fileBytes_append files _)
        · exact ih setup

theorem slice_prefix {bytes longer : List UInt8} (begins : bytes <+: longer) {seek size : Nat}
    (inside : seek + size ≤ bytes.length) :
    (longer.drop seek).take size = (bytes.drop seek).take size := by
  obtain ⟨more, rfl⟩ := begins
  rw [List.drop_append_of_le_length (by omega), List.take_append_of_le_length
    (by rw [List.length_drop]; omega)]

/-- A block of memory or of a file keeps its bytes when the files become longer. -/
theorem Block.Inside.longer (no_initial : ∀ size, block ≠ .initial size)
    (kept : ∀ index, fileBytes space.tempFiles index <+: fileBytes after.tempFiles index)
    (inside : block.Inside space) :
    block.Inside after ∧ block.bytes after = block.bytes space := by
  cases block with
  | initial size => exact absurd rfl (no_initial size)
  | memory bytes => exact ⟨trivial, rfl⟩
  | file index seek size =>
      have inside : seek + size ≤ (fileBytes space.tempFiles index).length := inside
      exact ⟨le_trans inside (kept index).length_le, slice_prefix (kept index) inside⟩

/-- What a large block adds: its bytes come behind those of the chain and the initial buffer. -/
structure Enlarged (space after : Space) (size : Nat) : Prop where
  logical : after.logicalSize = space.logicalSize
  physical : after.physicalSize = space.physicalSize
  dynamic : after.initiallyDynamic = space.initiallyDynamic
  sizes : (after.blocks.map Block.size).sum = (space.blocks.map Block.size).sum + size
  inside : ∀ block ∈ after.blocks, block.Inside after
  ordered : after.blocks.Pairwise Behind
  buffer : after.initialBuffer = []
  no_initial : ∀ size, .initial size ∉ after.blocks
  kept : contents space ++ space.initialBuffer <+: contents after

/-- The last block of the chain is new. -/
theorem Enlarged.appended (space after : Space) {last : Block}
    (blocks_eq : after.blocks = rest ++ [last])
    (same : after.logicalSize = space.logicalSize ∧ after.physicalSize = space.physicalSize ∧
      after.initiallyDynamic = space.initiallyDynamic ∧ after.initialBuffer = [])
    {size : Nat} (sizes : (rest.map Block.size).sum + last.size =
      (space.blocks.map Block.size).sum + size)
    (rest_inside : ∀ block ∈ rest, block.Inside after) (ordered : rest.Pairwise Behind)
    (rest_no_initial : ∀ size, .initial size ∉ rest) (inside : last.Inside after)
    (behind : ∀ block ∈ rest, Behind block last) (no_initial : ∀ size, last ≠ .initial size)
    (kept : contents space ++ space.initialBuffer <+:
      rest.flatMap (Block.bytes after) ++ last.bytes after) : Enlarged space after size where
  logical := same.1
  physical := same.2.1
  dynamic := same.2.2.1
  sizes := by
    rw [blocks_eq, List.map_append, List.sum_append, List.map_singleton, List.sum_singleton, sizes]
  inside block member := by
    rw [blocks_eq, List.mem_append, List.mem_singleton] at member
    rcases member with among | rfl
    · exact rest_inside block among
    · exact inside
  ordered := by
    rw [blocks_eq]
    refine List.pairwise_append.mpr ⟨ordered, List.pairwise_singleton _ _, ?_⟩
    intro block member other other_member
    obtain rfl := List.mem_singleton.mp other_member
    exact behind block member
  buffer := same.2.2.2
  no_initial size member := by
    rw [blocks_eq, List.mem_append, List.mem_singleton] at member
    rcases member with among | rfl
    · exact rest_no_initial size among
    · exact no_initial size rfl
  kept := by
    have after_eq : contents after = rest.flatMap (Block.bytes after) ++ last.bytes after := by
      rw [contents, blocks_eq, List.flatMap_append, List.flatMap_singleton]
    rw [after_eq]
    exact kept

/-- Blocks of memory and of files, when the files become longer. -/
theorem inside_longer {blocks : List Block} (inside : ∀ block ∈ blocks, block.Inside space)
    (no_initial : ∀ size, .initial size ∉ blocks)
    (kept : ∀ index, fileBytes space.tempFiles index <+: fileBytes after.tempFiles index) :
    (∀ block ∈ blocks, block.Inside after) ∧
      blocks.flatMap (Block.bytes after) = blocks.flatMap (Block.bytes space) := by
  have each : ∀ block ∈ blocks, block.Inside after ∧ block.bytes after = block.bytes space :=
    fun block member => (inside block member).longer
      (fun size same => no_initial size (same ▸ member)) kept
  exact ⟨fun block member => (each block member).1,
    List.flatMap_congr fun block member => (each block member).2⟩

/-- A new block of a file, behind all that the blocks of the space have of it. -/
theorem Enlarged.newFile (inside : ∀ block ∈ space.blocks, block.Inside space)
    (ordered : space.blocks.Pairwise Behind) (no_initial : ∀ size, .initial size ∉ space.blocks)
    (buffer : space.initialBuffer = [] ∨ space.blocks = []) {size : Nat}
    (buffer_le : space.initialBuffer.length ≤ size) {files : List TempFile} {file : Nat}
    (longer : Longer space.tempFiles files size (some file)) :
    Enlarged space (appendBlock { space with tempFiles := files }
      (.file file ((fileBytes files file).length - size) size)) size := by
  have room := longer.room file rfl
  generalize seek_eq : (fileBytes files file).length - size = seek
  have written := @fileBytes_write files file seek space.initialBuffer (by omega)
  let after := appendBlock { space with tempFiles := files } (.file file seek size)
  have after_files : ∀ index, fileBytes after.tempFiles index =
      if file = index then overwriteAt (fileBytes files index) seek space.initialBuffer
      else fileBytes files index := written
  have last_inside : seek + size ≤ (fileBytes after.tempFiles file).length := by
    rw [after_files, if_pos rfl, length_overwriteAt (by omega)]
    omega
  have kept : ∀ index, space.blocks = [] ∨
      fileBytes space.tempFiles index <+: fileBytes after.tempFiles index := by
    intro index
    refine buffer.symm.imp_right fun nothing => ?_
    rw [after_files, nothing, overwriteAt_nil, ite_self]
    exact longer.kept index
  have blocks_longer : (∀ block ∈ space.blocks, block.Inside after) ∧
      space.blocks.flatMap (Block.bytes after) = space.blocks.flatMap (Block.bytes space) := by
    by_cases empty : space.blocks = []
    · rw [empty]
      exact ⟨fun _ member => (by cases member), rfl⟩
    · exact inside_longer inside no_initial fun index => (kept index).resolve_left empty
  refine .appended space after rfl ⟨rfl, rfl, rfl, rfl⟩ rfl blocks_longer.1 ordered no_initial last_inside
    (fun block member => ?_) (fun size same => by cases same) ?_
  · have block_inside := inside block member
    cases block with
    | initial _ => trivial
    | memory _ => trivial
    | file index other_seek other_size =>
        intro same
        rw [Block.Inside, same] at block_inside
        omega
  · have last_bytes : (Block.file file seek size).bytes after =
        overwriteAt (((fileBytes files file).drop seek).take size) 0 space.initialBuffer := by
      rw [Block.bytes, after_files, if_pos rfl]
      exact @slice_overwriteAt _ _ seek size 0 (by omega) (by omega)
    rw [blocks_longer.2, last_bytes]
    exact (List.prefix_append_right_inj _).mpr (List.prefix_append _ _)

/-- The last block is one of the file that became longer. -/
theorem Enlarged.sameFile (inside : ∀ block ∈ space.blocks, block.Inside space)
    (ordered : space.blocks.Pairwise Behind) (no_initial : ∀ size, .initial size ∉ space.blocks)
    (buffer : space.initialBuffer = [] ∨ space.blocks = []) {size : Nat} {files : List TempFile}
    {file : Nat} (longer : Longer space.tempFiles files size (some file))
    (same : TempSpace.sameFile space.blocks file = true) :
    Enlarged space
      { space with tempFiles := files, blocks := growTail space.blocks size } size := by
  have room := longer.room file rfl
  rw [TempSpace.sameFile] at same
  split at same
  · rename_i other seek old last_eq
    obtain rfl := beq_iff_eq.mp same
    obtain ⟨rest, blocks_eq⟩ := List.getLast?_eq_some_iff.mp last_eq
    have tail_inside : seek + old ≤ (fileBytes space.tempFiles other).length :=
      inside (.file other seek old) (blocks_eq ▸ List.mem_concat_self)
    have nothing : space.initialBuffer = [] := buffer.resolve_right fun empty => by
      rw [empty] at blocks_eq
      exact List.append_ne_nil_of_right_ne_nil _ (List.cons_ne_nil _ _) blocks_eq.symm
    have among : ∀ block ∈ rest, block ∈ space.blocks := fun block member =>
      blocks_eq ▸ List.mem_append_left _ member
    rw [blocks_eq, List.pairwise_append] at ordered
    have tail_eq : growTail space.blocks size = rest ++ [.file other seek (old + size)] := by
      rw [growTail, last_eq, blocks_eq, List.dropLast_concat]
    let after := { space with tempFiles := files, blocks := growTail space.blocks size }
    obtain ⟨rest_inside, rest_bytes⟩ := @inside_longer space after rest
      (fun block member => inside block (among block member))
      (fun size member => no_initial size (among _ member)) longer.kept
    have sizes : (rest.map Block.size).sum + (Block.file other seek (old + size)).size =
        (space.blocks.map Block.size).sum + size := by
      rw [blocks_eq, List.map_append, List.sum_append, List.map_singleton, List.sum_singleton,
        Nat.add_assoc]
      rfl
    refine .appended space after tail_eq ⟨rfl, rfl, rfl, nothing⟩ sizes rest_inside ordered.1
      (fun size member => no_initial size (among _ member))
      (show seek + (old + size) ≤ (fileBytes files other).length by omega)
      (fun block member => ?_) (fun size same => by cases same) ?_
    · have behind := ordered.2.2 block member _ List.mem_cons_self
      cases block <;> exact behind
    · rw [rest_bytes, nothing, List.append_nil, contents, blocks_eq, List.flatMap_append,
        List.flatMap_singleton]
      refine (List.prefix_append_right_inj _).mpr ?_
      rw [Block.bytes, Block.bytes, ← slice_prefix (longer.kept other) tail_inside]
      exact List.take_prefix_take_left (Nat.le_add_right _ _)
  · cases same

theorem allocateBlock_enlarges (sound : around.Sound) {size : Nat}
    (inside : ∀ block ∈ space.blocks, block.Inside space)
    (ordered : space.blocks.Pairwise Behind) (no_initial : ∀ size, .initial size ∉ space.blocks)
    (buffer : space.initialBuffer = [] ∨ space.blocks = [])
    (buffer_le : space.initialBuffer.length ≤ size)
    (done : allocateBlock around space size = .done after) : Enlarged space after size := by
  rw [allocateBlock] at done
  split at done
  · rename_i bytes allocated
    obtain rfl := Outcome.done.inj done
    have bytes_length : bytes.length = size := by
      rw [memoryBlock] at allocated
      split at allocated
      · exact sound.newMemory_length _ _ allocated
      · cases allocated
    have length_eq : (overwrite bytes space.initialBuffer).length = size := by
      rw [overwrite, List.length_append, List.length_drop]
      omega
    let after := appendBlock { space with localCacheUsage := space.localCacheUsage + size }
      (.memory bytes)
    obtain ⟨blocks_inside, blocks_bytes⟩ := @inside_longer space after space.blocks inside no_initial
      (fun _ => List.prefix_rfl)
    have sizes : (space.blocks.map Block.size).sum +
        (Block.memory (overwrite bytes space.initialBuffer)).size =
          (space.blocks.map Block.size).sum + size := by rw [Block.size, length_eq]
    refine .appended space after rfl ⟨rfl, rfl, rfl, rfl⟩ sizes blocks_inside ordered no_initial trivial
      (fun block _ => by cases block <;> exact trivial) (fun size same => by cases same) ?_
    rw [blocks_bytes]
    exact (List.prefix_append_right_inj _).mpr (List.prefix_append _ _)
  · split at done
    · cases done
    · rename_i files file setup
      have longer := setupFile_longer _ setup
      dsimp only at done
      split at done
      · rename_i same
        obtain rfl := Outcome.done.inj done
        exact .sameFile inside ordered no_initial buffer longer same
      · obtain rfl := Outcome.done.inj done
        have file_length : ((files[file]?).elim 0 fun temp => temp.bytes.length) =
            (fileBytes files file).length := by
          rw [fileBytes]
          cases files[file]? <;> rfl
        rw [file_length]
        exact .newFile inside ordered no_initial buffer buffer_le longer

/-- No block is longer than 32 bits have room for. -/
def FitsBlock (around : Surroundings) (length : Nat) : Prop :=
  length + MIN_TEMP_BLOCK_SIZE + around.minBlockSize ≤ 2 ^ 32

theorem Enlarged.sound {size : Nat} (enlarged : Enlarged space after size)
    (physical : space.physicalSize = (space.blocks.map Block.size).sum + size)
    (logical : space.logicalSize ≤ space.physicalSize)
    (large : space.initiallyDynamic → MIN_TEMP_BLOCK_SIZE ≤ space.logicalSize) : Sound after where
  physical := by rw [enlarged.physical, enlarged.sizes, physical]
  logical := by
    rw [enlarged.logical, enlarged.physical]
    exact logical
  inside := enlarged.inside
  ordered := enlarged.ordered
  initial := by
    refine .inl ⟨enlarged.buffer, enlarged.no_initial, fun dynamic => .inr ?_⟩
    rw [enlarged.dynamic] at dynamic
    rw [enlarged.logical]
    exact large dynamic

/-- Other sizes of the space do not change its bytes. -/
theorem contents_raised (space : Space) (logicalSize physicalSize : Nat) :
    contents { space with logicalSize := logicalSize, physicalSize := physicalSize } =
      contents space :=
  List.flatMap_congr fun block _ => by cases block <;> rfl

/-- Growing keeps the contents and adds to their end. -/
theorem Sound.extend (sound : Sound space) (around_sound : around.Sound) {size : Nat}
    (fits : FitsBlock around size) (done : TempSpace.extend around space size = .done after) :
    Sound after ∧ after.logicalSize = space.logicalSize + size ∧
      contents space <+: contents after := by
  have logical := sound.logical
  have physical := sound.physical
  have same_bytes : ∀ (logicalSize physicalSize : Nat) (block : Block),
      block.Inside space → block.Inside
        { space with logicalSize := logicalSize, physicalSize := physicalSize } := by
    intro _ _ block inside
    cases block <;> exact inside
  rw [FitsBlock] at fits
  rw [TempSpace.extend] at done
  dsimp only at done
  by_cases short : space.physicalSize < space.logicalSize + size
  · rw [if_pos short] at done
    by_cases small : space.initiallyDynamic ∧ space.logicalSize + size < MIN_TEMP_BLOCK_SIZE
    · rw [if_pos small] at done
      obtain rfl := Outcome.done.inj done
      have size_eq : (if space.initialBuffer.length = 0 then size
          else size + space.initialBuffer.length) = size + space.initialBuffer.length := by
        split_ifs <;> omega
      have length_eq : (space.initialBuffer ++ around.newBytes
          (size + space.initialBuffer.length - space.initialBuffer.length)).length =
            size + space.initialBuffer.length := by
        rw [List.length_append, around_sound.newBytes_length]
        omega
      have before : space.logicalSize = space.initialBuffer.length ∧
          contents space = space.initialBuffer := by
        rcases sound.initial with ⟨empty, -, dynamic⟩ | ⟨alone, -, same, -⟩
        · have nothing := (dynamic small.1).resolve_right (by omega)
          rw [nothing, List.map_nil, List.sum_nil] at physical
          rw [contents, nothing, empty]
          exact ⟨by rw [List.length_nil]; omega, rfl⟩
        · refine ⟨same, ?_⟩
          rw [contents, alone, List.flatMap_singleton]
          rfl
      rw [size_eq]
      refine ⟨⟨?_, ?_, ?_, List.pairwise_singleton _ _, .inr ⟨?_, ?_, ?_, small.2⟩⟩, rfl, ?_⟩
      · rw [List.map_singleton, List.sum_singleton]
        rfl
      · dsimp only
        omega
      · intro block member
        obtain rfl := List.mem_singleton.mp member
        exact length_eq
      · dsimp only
        rw [length_eq]
      · dsimp only
        omega
      · dsimp only
        omega
      · rw [before.2, contents, List.flatMap_singleton]
        exact List.prefix_append _ _
    · rw [if_neg small] at done
      have large : space.initiallyDynamic = true →
          MIN_TEMP_BLOCK_SIZE ≤ space.logicalSize + size :=
        fun dynamic => Nat.not_lt.mp fun less => small ⟨dynamic, less⟩
      rcases sound.initial with ⟨empty, no_initial, dynamic⟩ | ⟨alone, positive, same, low⟩
      · rw [if_neg (by rw [empty]; exact fun positive => positive rfl)] at done
        have aligned_le := fbAlign_le (space.logicalSize + size - space.physicalSize)
          around.minBlockSize
        have le_aligned := le_fbAlign (space.logicalSize + size - space.physicalSize)
          around_sound.positive
        rw [Nat.mod_eq_of_lt (by omega)] at done
        generalize fbAlign (space.logicalSize + size - space.physicalSize)
          around.minBlockSize = aligned at *
        have inside := fun block member => same_bytes (space.logicalSize + size)
          (space.physicalSize + aligned) block (sound.inside block member)
        let raised := { space with
          logicalSize := space.logicalSize + size, physicalSize := space.physicalSize + aligned }
        have enlarged : Enlarged raised after aligned :=
          allocateBlock_enlarges around_sound inside sound.ordered no_initial (.inl empty)
            (show space.initialBuffer.length ≤ aligned by rw [empty]; exact Nat.zero_le _) done
        refine ⟨enlarged.sound (congrArg (· + aligned) physical)
          (show space.logicalSize + size ≤ space.physicalSize + aligned by omega) large,
          enlarged.logical, ?_⟩
        have kept := enlarged.kept
        rwa [contents_raised, show raised.initialBuffer = [] from empty, List.append_nil] at kept
      · rw [if_pos (by omega)] at done
        have aligned_le := fbAlign_le (space.logicalSize + size) around.minBlockSize
        have le_aligned := le_fbAlign (space.logicalSize + size) around_sound.positive
        rw [Nat.mod_eq_of_lt (by omega)] at done
        have enlarged := allocateBlock_enlarges around_sound
          (fun block member => by cases member) List.Pairwise.nil
          (fun size member => by cases member) (.inr rfl) (by dsimp only; omega) done
        refine ⟨enlarged.sound (by simp) le_aligned large, enlarged.logical, ?_⟩
        refine List.IsPrefix.trans ?_ enlarged.kept
        rw [contents, alone, List.flatMap_singleton]
        exact List.prefix_rfl
  · rw [if_neg short] at done
    obtain rfl := Outcome.done.inj done
    refine ⟨⟨physical, Nat.not_lt.mp short, fun block member => same_bytes _ _ block
      (sound.inside block member), sound.ordered, ?_⟩, rfl, ?_⟩
    · refine sound.initial.imp (fun initial => ⟨initial.1, initial.2.1, fun dynamic =>
        (initial.2.2 dynamic).imp_right fun large => le_trans large (Nat.le_add_right _ _)⟩) ?_
      rintro ⟨alone, positive, same, low⟩
      have nothing : size = 0 := by
        rw [alone, List.map_singleton, List.sum_singleton, Block.size] at physical
        omega
      rw [nothing]
      exact ⟨alone, positive, same, low⟩
    · rw [contents_raised space (space.logicalSize + size) space.physicalSize]

/-- `write` puts the bytes in their place, and grows the space where they go behind its end. -/
theorem Sound.write (sound : Sound space) (around_sound : around.Sound) {offset : Nat}
    {data : List UInt8} (fits : FitsBlock around data.length) (inside : offset ≤ space.logicalSize)
    (done : TempSpace.write around space offset data = .done after) :
    Sound after ∧ after.logicalSize = max space.logicalSize (offset + data.length) ∧
      ∃ grown, contents space <+: grown ∧ offset + data.length ≤ grown.length ∧
        contents after = overwriteAt grown offset data := by
  rw [TempSpace.write] at done
  generalize grown_eq : (if space.logicalSize < offset + data.length then
    TempSpace.extend around space (offset + data.length - space.logicalSize)
      else .done space) = outcome at done
  cases outcome with
  | outOfTempSpace _ => cases done
  | done grown =>
      have grows : Sound grown ∧ grown.logicalSize = max space.logicalSize (offset + data.length) ∧
          contents space <+: contents grown := by
        split_ifs at grown_eq with beyond
        · have fits : FitsBlock around (offset + data.length - space.logicalSize) := by
            rw [FitsBlock] at fits ⊢
            omega
          obtain ⟨grown_sound, logical, kept⟩ := sound.extend around_sound fits grown_eq
          exact ⟨grown_sound, by omega, kept⟩
        · obtain rfl := Outcome.done.inj grown_eq
          exact ⟨sound, by omega, List.prefix_rfl⟩
      obtain ⟨grown_sound, logical, kept⟩ := grows
      have logical_le := grown_sound.logical
      have length_eq := grown_sound.length_contents
      dsimp only at done
      by_cases empty : data = []
      · rw [if_pos empty] at done
        obtain rfl := Outcome.done.inj done
        refine ⟨grown_sound, logical, contents grown, kept, by omega, ?_⟩
        rw [empty, overwriteAt_nil]
      · rw [if_neg empty] at done
        have positive := List.length_pos_of_ne_nil empty
        obtain ⟨front, block, rest, local_offset, blocks_eq, found, less, start_eq⟩ :=
          grown_sound.findBlock (show offset < grown.physicalSize by omega)
        rw [found, Option.elim_some, blocks_eq, List.drop_left] at done
        obtain rfl := Outcome.done.inj done
        have physical := grown_sound.physical
        rw [blocks_eq, List.map_append, List.sum_append] at physical
        have front_length := sum_sizes grown front fun other member =>
          grown_sound.length_eq other (blocks_eq ▸ List.mem_append_left _ member)
        obtain ⟨after_sound, after_logical, after_contents⟩ :=
          @Sound.writeBlocks grown front (block :: rest) grown_sound blocks_eq local_offset data
            (fun first is_first => Option.some.inj is_first ▸ less.le) (by omega)
        refine ⟨after_sound, after_logical.trans logical, contents grown, kept, by omega, ?_⟩
        rw [after_contents, ← front_length, start_eq]

end TempSpace
end Firebird
