import Mathlib.Data.List.Basic
import Mathlib.Logic.Function.Basic

/-!
# Transaction inventory pages

Two bits for each transaction, four transactions to a byte, `transPerTIP` transactions to a page.
The definitions follow `jrd/tra.cpp`; a page is the sequence of its `tip_transactions` bytes.
-/

namespace Firebird

/-- The four states stored on a transaction inventory page. -/
inductive TransactionState where
  | active
  | limbo
  | dead
  | committed
  deriving DecidableEq, Repr

namespace TransactionState

/-- The two-bit code of a state (`tra_active`, `tra_limbo`, `tra_dead`, `tra_committed`). -/
def code : TransactionState → UInt8
  | active => 0
  | limbo => 1
  | dead => 2
  | committed => 3

/-- The state with a given code. -/
def ofCode (code : UInt8) : TransactionState :=
  if code = 0 then active else if code = 1 then limbo else if code = 2 then dead else committed

end TransactionState

open TransactionState

/-- `TRANS_SHIFT(number)`. -/
def transShift (number : Nat) : UInt8 := UInt8.ofNat (number % 4 * 2)

/-- `TRANS_OFFSET(number)`. -/
def transOffset (number : Nat) : Nat := number / 4

/-- The state of `number` in the byte that holds it. -/
def stateInByte (byte : UInt8) (number : Nat) : TransactionState :=
  ofCode ((byte >>> transShift number) &&& 3)

/-- The byte after the state of `number` is set in it. -/
def setInByte (byte : UInt8) (number : Nat) (state : TransactionState) : UInt8 :=
  (byte &&& ~~~(3 <<< transShift number)) ||| (state.code <<< transShift number)

private theorem mask_cases :
    ∀ slot < 4, ∀ other < 4,
      ((~~~((3 : UInt8) <<< UInt8.ofNat (slot * 2))) >>> UInt8.ofNat (other * 2)) &&& 3 =
        if other = slot then 0 else 3 := by
  decide

private theorem or_and_three (left right : UInt8) :
    (left ||| right) &&& 3 = (left &&& 3) ||| (right &&& 3) :=
  UInt8.toBitVec_inj.1 BitVec.and_or_distrib_right

private theorem code_cases :
    ∀ slot < 4, ∀ other < 4, ∀ code < 4,
      ((UInt8.ofNat code <<< UInt8.ofNat (slot * 2)) >>> UInt8.ofNat (other * 2)) &&& 3 =
        if other = slot then UInt8.ofNat code else 0 := by
  decide

theorem ofCode_code (state : TransactionState) : ofCode state.code = state := by
  cases state <;> rfl

theorem stateInByte_setInByte (byte : UInt8) (number other : Nat)
    (state : TransactionState) :
    stateInByte (setInByte byte number state) other =
      if other % 4 = number % 4 then state else stateInByte byte other := by
  have slot_lt : number % 4 < 4 := Nat.mod_lt _ (by decide)
  have other_lt : other % 4 < 4 := Nat.mod_lt _ (by decide)
  have code_lt : state.code.toNat < 4 := by cases state <;> decide
  have mask := mask_cases _ slot_lt _ other_lt
  have code := code_cases _ slot_lt _ other_lt _ code_lt
  rw [UInt8.ofNat_toNat] at code
  rw [stateInByte, setInByte, transShift, transShift, UInt8.shiftRight_or, UInt8.shiftRight_and,
    or_and_three, UInt8.and_assoc, mask, code]
  split
  · rw [UInt8.and_zero, UInt8.zero_or, ofCode_code]
  · rw [UInt8.or_zero, stateInByte, transShift]

theorem stateInByte_zero (number : Nat) : stateInByte 0 number = active := by
  have cases : ∀ slot < 4, stateInByte 0 slot = active := by decide
  have := cases (number % 4) (Nat.mod_lt _ (by decide))
  simpa [stateInByte, transShift] using this

/-- The transaction inventory: the bytes of the page with each sequence number. -/
structure Inventory where
  /-- Bytes of a page; `transPerTIP` is four times as many. -/
  tipBytes : Nat
  /-- A page holds at least one byte. -/
  tipBytes_pos : 0 < tipBytes
  /-- `tip_transactions`, by page sequence and byte. -/
  tip_transactions : Nat → Nat → UInt8

namespace Inventory

/-- `transPerTIP`. -/
def transPerTIP (inventory : Inventory) : Nat := 4 * inventory.tipBytes

/-- `TRA_fetch_state`. -/
def fetchState (inventory : Inventory) (number : Nat) : TransactionState :=
  stateInByte
    (inventory.tip_transactions (number / inventory.transPerTIP)
      (transOffset (number % inventory.transPerTIP)))
    number

/-- The page update of `TRA_set_state`. -/
def setState (inventory : Inventory) (number : Nat) (state : TransactionState) :
    Inventory :=
  let sequence := number / inventory.transPerTIP
  let byte := transOffset (number % inventory.transPerTIP)
  { inventory with
    tip_transactions :=
      Function.update inventory.tip_transactions sequence
        (Function.update (inventory.tip_transactions sequence) byte
          (setInByte (inventory.tip_transactions sequence byte) number state)) }

/-- The bytes `TRA_get_inventory` copies from the first page of its range. -/
def firstBytes (inventory : Inventory) (base top : Nat) : List UInt8 :=
  let l := base % inventory.transPerTIP
  (List.range (transOffset (min (top + 3 + 1 - base) (inventory.transPerTIP - l)))).map fun i =>
    inventory.tip_transactions (base / inventory.transPerTIP) (transOffset l + i)

/-- The bytes `TRA_get_inventory` copies from a later page. -/
def nextBytes (inventory : Inventory) (sequence : Nat) (top : Nat) : List UInt8 :=
  let base := sequence * inventory.transPerTIP
  (List.range (transOffset (min (top + 3 + 1 - base) inventory.transPerTIP))).map
    (inventory.tip_transactions sequence)

/-- The bytes copied from the page with the given sequence number. -/
def pageBytes (inventory : Inventory) (base top : Nat) (sequence : Nat) : List UInt8 :=
  if sequence = base / inventory.transPerTIP then
    inventory.firstBytes base top
  else
    inventory.nextBytes sequence top

@[simp] theorem tipBytes_setState (inventory : Inventory) (number : Nat)
    (state : TransactionState) : (inventory.setState number state).tipBytes = inventory.tipBytes :=
  rfl

@[simp] theorem transPerTIP_setState (inventory : Inventory) (number : Nat)
    (state : TransactionState) :
    (inventory.setState number state).transPerTIP = inventory.transPerTIP :=
  rfl

theorem transPerTIP_pos (inventory : Inventory) : 0 < inventory.transPerTIP := by
  have := inventory.tipBytes_pos
  rw [transPerTIP]
  omega

/-- The inventory as one sequence of bytes over all pages. -/
def byteAt (inventory : Inventory) (index : Nat) : UInt8 :=
  inventory.tip_transactions (index / inventory.tipBytes) (index % inventory.tipBytes)

theorem div_transPerTIP (inventory : Inventory) (number : Nat) :
    number / inventory.transPerTIP = number / 4 / inventory.tipBytes := by
  rw [transPerTIP, Nat.div_div_eq_div_mul]

theorem offset_mod_transPerTIP (inventory : Inventory) (number : Nat) :
    transOffset (number % inventory.transPerTIP) = number / 4 % inventory.tipBytes := by
  rw [transOffset, transPerTIP, Nat.mod_mul_right_div_self]

theorem fetchState_eq (inventory : Inventory) (number : Nat) :
    inventory.fetchState number = stateInByte (inventory.byteAt (number / 4)) number := by
  rw [fetchState, byteAt, div_transPerTIP, offset_mod_transPerTIP]

theorem byteAt_setState (inventory : Inventory) (number : Nat) (state : TransactionState)
    (index : Nat) :
    (inventory.setState number state).byteAt index =
      if index = number / 4 then setInByte (inventory.byteAt index) number state
      else inventory.byteAt index := by
  have split := Nat.div_add_mod index inventory.tipBytes
  have split' := Nat.div_add_mod (number / 4) inventory.tipBytes
  simp only [byteAt, setState, div_transPerTIP, offset_mod_transPerTIP]
  by_cases page : index / inventory.tipBytes = number / 4 / inventory.tipBytes
  · by_cases byte : index % inventory.tipBytes = number / 4 % inventory.tipBytes
    · have same : index = number / 4 := by rw [← split, ← split', page, byte]
      subst same
      simp
    · have differ : index ≠ number / 4 := fun same => byte (by rw [same])
      rw [if_neg differ, page, Function.update_self, Function.update_of_ne byte]
  · have differ : index ≠ number / 4 := fun same => page (by rw [same])
    rw [if_neg differ, Function.update_of_ne page]

/-- Setting the state of one transaction leaves all others alone. -/
theorem fetchState_setState (inventory : Inventory) (number other : Nat)
    (state : TransactionState) :
    (inventory.setState number state).fetchState other =
      if other = number then state else inventory.fetchState other := by
  have split := Nat.div_add_mod other 4
  have split' := Nat.div_add_mod number 4
  rw [fetchState_eq, fetchState_eq, byteAt_setState]
  by_cases byte : other / 4 = number / 4
  · rw [if_pos byte, stateInByte_setInByte]
    by_cases slot : other % 4 = number % 4
    · have same : other = number := by omega
      rw [if_pos slot, if_pos same]
    · have differ : other ≠ number := fun same => slot (by rw [same])
      rw [if_neg slot, if_neg differ]
  · have differ : other ≠ number := fun same => byte (by rw [same])
    rw [if_neg byte, if_neg differ]

/-! ## Copying a page -/

variable (inventory : Inventory) {base top : Nat} {sequence : Nat}

/-- First byte, counted over the whole inventory, that the copy of a page takes. -/
def copyStart (base : Nat) (sequence : Nat) : Nat :=
  max (base / 4) (sequence * inventory.tipBytes)

/-- End, counted over the whole inventory, of the bytes the copy of a page takes. -/
def copyEnd (top : Nat) (sequence : Nat) : Nat :=
  min (top / 4 + 1) ((sequence + 1) * inventory.tipBytes)

theorem pageBytes_eq (aligned : base % 4 = 0) (first : base / inventory.transPerTIP ≤ sequence)
    (last : sequence ≤ top / inventory.transPerTIP) (ordered : base ≤ top) :
    inventory.pageBytes base top sequence =
      (List.range (inventory.copyEnd top sequence - inventory.copyStart base sequence)).map
        fun i => inventory.byteAt (inventory.copyStart base sequence + i) := by
  have positive := inventory.tipBytes_pos
  rw [div_transPerTIP] at first last
  have top_page : sequence * inventory.tipBytes ≤ top / 4 :=
    (Nat.le_div_iff_mul_le positive).mp last
  have next_page : (sequence + 1) * inventory.tipBytes =
      sequence * inventory.tipBytes + inventory.tipBytes := Nat.succ_mul _ _
  have in_page : ∀ offset < inventory.tipBytes,
      inventory.byteAt (sequence * inventory.tipBytes + offset) =
        inventory.tip_transactions sequence offset := by
    intro offset small
    have page : (sequence * inventory.tipBytes + offset) / inventory.tipBytes = sequence := by
      rw [Nat.add_comm, Nat.add_mul_div_right _ _ positive, Nat.div_eq_of_lt small, Nat.zero_add]
    have byte : (sequence * inventory.tipBytes + offset) % inventory.tipBytes = offset := by
      rw [Nat.add_comm, Nat.add_mul_mod_self_right, Nat.mod_eq_of_lt small]
    rw [byteAt, page, byte]
  rw [pageBytes, div_transPerTIP]
  by_cases is_first : sequence = base / 4 / inventory.tipBytes
  · have split := Nat.div_add_mod (base / 4) inventory.tipBytes
    have remainder := Nat.mod_lt (base / 4) positive
    rw [← is_first, Nat.mul_comm] at split
    have start_eq : inventory.copyStart base sequence = base / 4 := by
      rw [copyStart]
      omega
    have count_eq : transOffset (min (top + 3 + 1 - base)
        (inventory.transPerTIP - base % inventory.transPerTIP)) =
          inventory.copyEnd top sequence - base / 4 := by
      have offset := inventory.offset_mod_transPerTIP base
      have whole : base % inventory.transPerTIP % 4 = 0 := by
        rw [transPerTIP, Nat.mod_mul_right_mod, aligned]
      rw [transOffset] at offset ⊢
      rw [copyEnd, next_page]
      rw [transPerTIP] at offset whole ⊢
      omega
    rw [if_pos is_first, firstBytes]
    simp only [count_eq, start_eq]
    apply List.map_congr_left
    intro i bound
    rw [List.mem_range, copyEnd] at bound
    rw [div_transPerTIP, offset_mod_transPerTIP, ← is_first, ← in_page _ (by omega)]
    congr 1
    omega
  · have start_eq : inventory.copyStart base sequence = sequence * inventory.tipBytes := by
      have before : base / 4 / inventory.tipBytes < sequence := by omega
      have := (Nat.div_lt_iff_lt_mul positive).mp before
      rw [copyStart]
      omega
    have count_eq : transOffset (min (top + 3 + 1 - sequence * inventory.transPerTIP)
        inventory.transPerTIP) =
          inventory.copyEnd top sequence - sequence * inventory.tipBytes := by
      have scaled : sequence * (4 * inventory.tipBytes) = 4 * (sequence * inventory.tipBytes) :=
        Nat.mul_left_comm _ _ _
      rw [transOffset, transPerTIP, copyEnd, scaled, next_page]
      omega
    rw [if_neg is_first, nextBytes]
    simp only [count_eq, start_eq]
    apply List.map_congr_left
    intro i bound
    rw [List.mem_range, copyEnd] at bound
    exact (in_page i (by omega)).symm

end Inventory

/-- `oldest & ~TRA_MASK`: the number of the first state in a snapshot's bit vector. -/
def snapshotBase (oldest : Nat) : Nat := oldest - oldest % 4

/-- `TRA_state`: the state of a transaction in a snapshot's bit vector. -/
def traState (bit_vector : List UInt8) (oldest number : Nat) : TransactionState :=
  stateInByte (bit_vector.getD (transOffset (number - snapshotBase oldest)) 0) number

end Firebird
