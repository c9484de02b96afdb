import Mathlib

/-!
# Growing a temporary space

`TempSpace` of `jrd/TempSpace.cpp` keeps a chain of blocks: one small block that grows in place at
first, then blocks in memory, and blocks in temporary files when the memory is used up.  `extend`
raises the sizes before it asks for the block.
-/

namespace Firebird
namespace TempSpace

def MIN_TEMP_BLOCK_SIZE : Nat := 64 * 1024

/-- `(n + b - 1) & ~(b - 1)`. -/
def fbAlign (n b : Nat) : Nat := n + b - 1 - ((n + b - 1) &&& (b - 1))

/-- A temporary file; it is named after the directory it is in. -/
structure TempFile where
  directory : Nat
  bytes : List UInt8
  deriving DecidableEq, Repr

/-- The blocks of a space. -/
inductive Block where
  /-- `InitialBlock`; its bytes are the initial buffer. -/
  | initial (size : Nat)
  /-- `MemoryBlock`. -/
  | memory (bytes : List UInt8)
  /-- `FileBlock`, in one of the temporary files of the space. -/
  | file (file seek size : Nat)
  deriving DecidableEq, Repr

def Block.size : Block → Nat
  | initial size => size
  | memory bytes => bytes.length
  | file _ _ size => size

/-- Everything that decides on the success of an allocation. -/
structure Surroundings where
  minBlockSize : Nat
  tempDirs : List Nat
  /-- `TempCacheLimitGuard::isAllowed`. -/
  isAllowed : Nat → Bool
  /-- `new UCHAR[size]`, with the bytes that happen to be there. -/
  newMemory : Nat → Option (List UInt8)
  /-- The bytes that a growing initial buffer happens to get. -/
  newBytes : Nat → List UInt8
  /-- A file can be created in the directory. -/
  newFile : Nat → Bool
  /-- The file of the directory can be extended, or so many bytes are written before the error. -/
  extendFile : Nat → Nat → Option Nat

/-- The members of a `TempSpace` that `extend` works on. -/
structure Space where
  logicalSize : Nat
  physicalSize : Nat
  localCacheUsage : Nat
  /-- From `head` to `tail`. -/
  blocks : List Block
  tempFiles : List TempFile
  initialBuffer : List UInt8
  initiallyDynamic : Bool
  deriving DecidableEq, Repr

/-- `TempFile::extend` writes zeros behind the end. -/
def TempFile.extend (file : TempFile) (delta : Nat) : TempFile :=
  { file with bytes := file.bytes ++ List.replicate delta 0 }

variable (around : Surroundings)

/-- `setupFile`: the first of the directories in which a file can be made larger.  The files that
were tried stay with the space, with what was written to them. -/
def setupFile (size : Nat) : (directories : List Nat) → List TempFile → List TempFile × Option Nat
  | [], files => (files, none)
  | directory :: directories, files =>
      match files.findIdx? fun file => file.directory == directory with
      | some index =>
          match around.extendFile directory size with
          | none => (files.modify index (·.extend size), some index)
          | some written => setupFile size directories (files.modify index (·.extend written))
      | none =>
          if around.newFile directory then
            match around.extendFile directory size with
            | none => (files ++ [TempFile.extend ⟨directory, []⟩ size], some files.length)
            | some written =>
                setupFile size directories (files ++ [TempFile.extend ⟨directory, []⟩ written])
          else setupFile size directories files

/-- A call returns, or it raises `isc_out_of_temp_space` and leaves the space behind. -/
inductive Outcome where
  | done (space : Space)
  | outOfTempSpace (space : Space)
  deriving DecidableEq, Repr

/-- The block that is allocated in virtual memory, if there may be and is one. -/
def memoryBlock (size : Nat) : Option (List UInt8) :=
  if around.isAllowed size then around.newMemory size else none

/-- The tail is a block of the file. -/
def sameFile (blocks : List Block) (file : Nat) : Bool :=
  match blocks.getLast? with
  | some (.file other _ _) => other == file
  | _ => false

/-- `tail->size += size`. -/
def growTail (blocks : List Block) (size : Nat) : List Block :=
  match blocks.getLast? with
  | some (.file file seek old) => blocks.dropLast ++ [.file file seek (old + size)]
  | _ => blocks

/-- Bytes written over the start of other bytes. -/
def overwrite (bytes source : List UInt8) : List UInt8 := source ++ bytes.drop source.length

/-- The new block goes to the end of the chain, with the initial contents, if there are any. -/
def appendBlock (space : Space) (block : Block) : Space :=
  let preserved : Block × List TempFile :=
    match block with
    | .memory bytes => (.memory (overwrite bytes space.initialBuffer), space.tempFiles)
    | .file file seek _ =>
        (block, space.tempFiles.modify file fun temp =>
          { temp with
            bytes := temp.bytes.take seek ++ overwrite (temp.bytes.drop seek) space.initialBuffer })
    | .initial _ => (block, space.tempFiles)
  { space with
    blocks := space.blocks ++ [preserved.1]
    tempFiles := preserved.2
    initialBuffer := [] }

/-- The part of `extend` that allocates a large block, once the sizes are raised. -/
def allocateBlock (space : Space) (size : Nat) : Outcome :=
  match memoryBlock around size with
  | some bytes =>
      .done (appendBlock { space with localCacheUsage := space.localCacheUsage + size }
        (.memory bytes))
  | none =>
      match setupFile around size around.tempDirs space.tempFiles with
      | (files, none) => .outOfTempSpace { space with tempFiles := files }
      | (files, some file) =>
          let space := { space with tempFiles := files }
          if sameFile space.blocks file then
            .done { space with blocks := growTail space.blocks size }
          else
            let length := ((files[file]?).elim 0 fun temp => temp.bytes.length)
            .done (appendBlock space (.file file (length - size) size))

/-- `TempSpace::extend`.  Block sizes are numbers of 32 bits. -/
def extend (space : Space) (size : Nat) : Outcome :=
  let space := { space with logicalSize := space.logicalSize + size }
  if space.physicalSize < space.logicalSize then
    let initialSize := space.initialBuffer.length
    if space.initiallyDynamic ∧ space.logicalSize < MIN_TEMP_BLOCK_SIZE then
      let size := if initialSize = 0 then size else size + initialSize
      .done { space with
        blocks := [.initial size]
        initialBuffer := space.initialBuffer ++ around.newBytes (size - initialSize)
        physicalSize := size }
    else if initialSize ≠ 0 then
      let size := fbAlign space.logicalSize around.minBlockSize % 2 ^ 32
      allocateBlock around { space with blocks := [], physicalSize := size } size
    else
      let size := fbAlign (space.logicalSize - space.physicalSize) around.minBlockSize % 2 ^ 32
      allocateBlock around { space with physicalSize := space.physicalSize + size } size
  else .done space

/-- The sizes, the chain of blocks and the initial buffer agree. -/
structure Agrees (space : Space) : Prop where
  physical : space.physicalSize = (space.blocks.map Block.size).sum
  logical : space.logicalSize ≤ space.physicalSize
  initial : ∀ size, Block.initial size ∈ space.blocks →
    space.blocks = [.initial size] ∧ size = space.initialBuffer.length

/-- What a call that fails is to leave: the sizes, the chain and the initial buffer of before. -/
structure Restored (space after : Space) : Prop where
  logical : after.logicalSize = space.logicalSize
  physical : after.physicalSize = space.physicalSize
  blocks : after.blocks = space.blocks
  initial : after.initialBuffer = space.initialBuffer

/-- The size of the large block that a growing space would need. -/
def largeBlock (space : Space) (size : Nat) : Nat :=
  if space.initialBuffer.length ≠ 0 then
    fbAlign (space.logicalSize + size) around.minBlockSize % 2 ^ 32
  else fbAlign (space.logicalSize + size - space.physicalSize) around.minBlockSize % 2 ^ 32

/-- A directory has a file that can be made larger, or one can be created there. -/
def HasRoom (files : List TempFile) (size directory : Nat) : Prop :=
  around.extendFile directory size = none ∧
    (around.newFile directory ∨ ∃ file ∈ files, file.directory = directory)

/-- No large block is needed, or there is memory or room in some directory for it. -/
def CanGrow (space : Space) (size : Nat) : Prop :=
  space.logicalSize + size ≤ space.physicalSize ∨
    (space.initiallyDynamic ∧ space.logicalSize + size < MIN_TEMP_BLOCK_SIZE) ∨
    (memoryBlock around (largeBlock around space size)).isSome ∨
    ∃ directory ∈ around.tempDirs,
      HasRoom around space.tempFiles (largeBlock around space size) directory

variable {around} {space after : Space} {size : Nat}

/-- Another file of a directory that cannot be extended gives no directory room. -/
theorem hasRoom_of_full {files files' : List TempFile} {directory : Nat} (full : Nat)
    (isFull : around.extendFile full size ≠ none)
    (same : ∀ other, other ≠ full →
      ((∃ file ∈ files', file.directory = other) ↔ ∃ file ∈ files, file.directory = other)) :
    HasRoom around files' size directory ↔ HasRoom around files size directory := by
  by_cases equal : directory = full
  · subst equal
    exact ⟨fun room => absurd room.1 isFull, fun room => absurd room.1 isFull⟩
  · rw [HasRoom, HasRoom, same directory equal]

theorem directory_modify (files : List TempFile) (index delta other : Nat) :
    (∃ file ∈ files.modify index (·.extend delta), file.directory = other) ↔
      ∃ file ∈ files, file.directory = other := by
  induction files generalizing index with
  | nil => cases index <;> simp
  | cons head files ih =>
      cases index with
      | zero => simp [TempFile.extend]
      | succ index => simpa using or_congr_right (ih index)

theorem directory_append {files : List TempFile} {added : TempFile} {other : Nat}
    (different : other ≠ added.directory) :
    (∃ file ∈ files ++ [added], file.directory = other) ↔
      ∃ file ∈ files, file.directory = other := by
  simp [or_and_right, exists_or, different.symm]

/-- The search for room finds it where there is some. -/
theorem setupFile_isSome (directories : List Nat) (files : List TempFile) :
    (setupFile around size directories files).2.isSome ↔
      ∃ directory ∈ directories, HasRoom around files size directory := by
  induction directories generalizing files with
  | nil => simp [setupFile]
  | cons directory directories ih =>
      rw [setupFile, List.exists_mem_cons_iff]
      split
      · rename_i index found
        obtain ⟨bound, here, -⟩ := List.findIdx?_eq_some_iff_getElem.mp found
        have present : ∃ file ∈ files, file.directory = directory :=
          ⟨_, List.getElem_mem bound, by simpa using here⟩
        split
        · rename_i extended
          simp [HasRoom, extended, present]
        · rename_i written extended
          rw [ih]
          have full : ¬HasRoom around files size directory := fun room => by
            rw [room.1] at extended
            cases extended
          rw [or_iff_right full]
          refine exists_congr fun other => and_congr_right fun _ => ?_
          exact hasRoom_of_full directory (by simp [extended])
            fun other _ => directory_modify files index written other
      · rename_i missing
        have absent : ¬∃ file ∈ files, file.directory = directory := by
          rintro ⟨file, member, equal⟩
          have := List.findIdx?_eq_none_iff.mp missing file member
          simp [equal] at this
        split
        · rename_i created
          split
          · rename_i extended
            simp [HasRoom, extended, created]
          · rename_i written extended
            rw [ih]
            have full : ¬HasRoom around files size directory := fun room => by
              rw [room.1] at extended
              cases extended
            rw [or_iff_right full]
            refine exists_congr fun other => and_congr_right fun _ => ?_
            exact hasRoom_of_full directory (by simp [extended])
              fun other different => directory_append different
        · rename_i refused
          have full : ¬HasRoom around files size directory := fun room =>
            room.2.elim (fun created => refused created) absent
          rw [ih, or_iff_right full]

/-- A large block that cannot be had leaves everything but the files as it was told. -/
theorem allocateBlock_fails (failed : allocateBlock around space size = .outOfTempSpace after) :
    ∃ files, after = { space with tempFiles := files } := by
  rw [allocateBlock] at failed
  split at failed
  · cases failed
  · split at failed
    · cases failed
      exact ⟨_, rfl⟩
    · dsimp only at failed
      split at failed <;> cases failed

/-- What a call that fails has done before. -/
theorem extend_fails (failed : extend around space size = .outOfTempSpace after) :
    space.physicalSize < space.logicalSize + size ∧
      after.logicalSize = space.logicalSize + size ∧
      (after.blocks = [] ∨ after.blocks = space.blocks) := by
  rw [extend] at failed
  dsimp only at failed
  by_cases short : space.physicalSize < space.logicalSize + size
  · rw [if_pos short] at failed
    split at failed
    · cases failed
    · split at failed
      · obtain ⟨files, rfl⟩ := allocateBlock_fails failed
        exact ⟨short, rfl, Or.inl rfl⟩
      · obtain ⟨files, rfl⟩ := allocateBlock_fails failed
        exact ⟨short, rfl, Or.inr rfl⟩
  · rw [if_neg short] at failed
    cases failed

/-- A large block is refused if there is neither memory nor room in a directory. -/
theorem allocateBlock_refuses :
    (∃ after, allocateBlock around space size = .outOfTempSpace after) ↔
      ¬((memoryBlock around size).isSome ∨
        ∃ directory ∈ around.tempDirs, HasRoom around space.tempFiles size directory) := by
  rw [← setupFile_isSome, allocateBlock]
  split
  · rename_i bytes allocated
    simp [allocated]
  · rename_i refused
    rw [refused]
    split
    · rename_i files none_eq
      simp [none_eq]
    · rename_i files file some_eq
      dsimp only
      split <;> simp [some_eq]

/-- A call fails exactly if the space cannot grow. -/
theorem extend_fails_iff :
    (∃ after, extend around space size = .outOfTempSpace after) ↔ ¬CanGrow around space size := by
  rw [extend, CanGrow, largeBlock]
  dsimp only
  by_cases short : space.physicalSize < space.logicalSize + size
  · rw [if_pos short, or_iff_right (by omega)]
    by_cases dynamic : space.initiallyDynamic ∧ space.logicalSize + size < MIN_TEMP_BLOCK_SIZE
    · rw [if_pos dynamic]
      simp [dynamic]
    · rw [if_neg dynamic, or_iff_right dynamic]
      by_cases preserved : space.initialBuffer.length ≠ 0
      · rw [if_pos preserved, if_pos preserved]
        exact allocateBlock_refuses
      · rw [if_neg preserved, if_neg preserved]
        exact allocateBlock_refuses
  · rw [if_neg short]
    simp only [reduceCtorEq, exists_false, false_iff, not_not]
    exact Or.inl (by omega)

/-- No call that fails leaves the space as it was, or in agreement with itself. -/
theorem failed_never_restores (agrees : Agrees space)
    (failed : extend around space size = .outOfTempSpace after) :
    ¬Restored space after ∧ ¬Agrees after := by
  obtain ⟨short, logical_eq, blocks_eq⟩ := extend_fails failed
  have positive : 0 < size := by
    have := agrees.logical
    omega
  refine ⟨fun restored => ?_, fun agrees_after => ?_⟩
  · have := restored.logical
    omega
  · have physical := agrees_after.physical
    have logical := agrees_after.logical
    rcases blocks_eq with emptied | kept
    · rw [emptied, List.map_nil, List.sum_nil] at physical
      omega
    · rw [kept, ← agrees.physical] at physical
      omega

/-- A space is left as it was by the calls that fail only where none does. -/
theorem extend_restores_iff (around : Surroundings) (space : Space) (size : Nat)
    (agrees : Agrees space) :
    (∀ after, extend around space size = .outOfTempSpace after →
      Restored space after ∧ Agrees after) ↔ CanGrow around space size := by
  constructor
  · intro restores
    by_contra stuck
    obtain ⟨after, failed⟩ := extend_fails_iff.mpr stuck
    exact (failed_never_restores agrees failed).1 (restores after failed).1
  · intro grows after failed
    exact absurd grows (extend_fails_iff.mp ⟨after, failed⟩)

/-- No memory and no temporary directory. -/
def nothingLeft : Surroundings where
  minBlockSize := 1048576
  tempDirs := []
  isAllowed := fun _ => false
  newMemory := fun _ => none
  newBytes := fun size => List.replicate size 0
  newFile := fun _ => false
  extendFile := fun _ _ => some 0

/-- A space with three bytes in its initial block. -/
def threeBytes : Space where
  logicalSize := 3
  physicalSize := 3
  localCacheUsage := 0
  blocks := [.initial 3]
  tempFiles := []
  initialBuffer := [1, 2, 3]
  initiallyDynamic := true

theorem threeBytes_agrees : Agrees threeBytes where
  physical := rfl
  logical := le_rfl
  initial := by
    intro size member
    cases List.mem_singleton.mp member
    exact ⟨rfl, rfl⟩

theorem extend_restores_iff_threeBytes :
    (∀ after, extend nothingLeft threeBytes 65536 = .outOfTempSpace after →
      Restored threeBytes after ∧ Agrees after) ↔ CanGrow nothingLeft threeBytes 65536 :=
  extend_restores_iff nothingLeft threeBytes 65536 threeBytes_agrees

theorem not_extend_restores :
    ¬∀ (around : Surroundings) (space after : Space) (size : Nat), Agrees space →
      extend around space size = .outOfTempSpace after → Restored space after ∧ Agrees after := by
  intro claimed
  have restored := claimed nothingLeft threeBytes
    { threeBytes with logicalSize := 65539, physicalSize := 1048576, blocks := [] } 65536
    threeBytes_agrees (by decide)
  exact absurd restored.1.logical (by decide)

end TempSpace
end Firebird
