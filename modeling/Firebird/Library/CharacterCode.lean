import Mathlib.Data.List.Basic

/-!
# Character codes

A code gives every character a sequence of units, so that a text is read in one way only.  The
UTF-16 and UTF-32 codes of Unicode characters are such codes.
-/

namespace CharacterCode

variable {χ α : Type*}

/-- The units of a text. -/
def encode (code : χ → List α) (text : List χ) : List α := text.flatMap code

/-- Some text has these units. -/
def WellFormed (code : χ → List α) (units : List α) : Prop := ∃ text, units = encode code text

/-- Some character stands at the start. -/
def Starts (code : χ → List α) (units : List α) : Prop := ∃ c rest, units = code c ++ rest

/-- The character at the start of a sequence of units can be told from the units. -/
structure IsPrefixCode (code : χ → List α) : Prop where
  nonempty : ∀ c, code c ≠ []
  unique : ∀ {first second : χ} {left right : List α},
    code first ++ left = code second ++ right → first = second ∧ left = right

@[simp] theorem encode_nil (code : χ → List α) : encode code [] = [] := rfl

@[simp] theorem encode_cons (code : χ → List α) (c : χ) (text : List χ) :
    encode code (c :: text) = code c ++ encode code text := rfl

@[simp] theorem encode_append (code : χ → List α) (left right : List χ) :
    encode code (left ++ right) = encode code left ++ encode code right := List.flatMap_append

variable {code : χ → List α}

theorem wellFormed_nil : WellFormed code [] := ⟨[], rfl⟩

theorem WellFormed.starts {units : List α} (good : WellFormed code units) (some : units ≠ []) :
    Starts code units := by
  obtain ⟨text, rfl⟩ := good
  cases text with
  | nil => exact absurd rfl some
  | cons c text => exact ⟨c, encode code text, rfl⟩

theorem IsPrefixCode.wellFormed_append_iff (prefix_code : IsPrefixCode code) (c : χ)
    (units : List α) : WellFormed code (code c ++ units) ↔ WellFormed code units := by
  constructor
  · rintro ⟨text, text_eq⟩
    cases text with
    | nil =>
        have empty : code c = [] := (List.append_eq_nil_iff.mp text_eq).1
        exact absurd empty (prefix_code.nonempty c)
    | cons first text => exact ⟨text, (prefix_code.unique text_eq).2⟩
  · rintro ⟨text, rfl⟩
    exact ⟨c :: text, rfl⟩

theorem IsPrefixCode.wellFormed_encode_append_iff (prefix_code : IsPrefixCode code)
    (text : List χ) (units : List α) :
    WellFormed code (encode code text ++ units) ↔ WellFormed code units := by
  induction text with
  | nil => rfl
  | cons c text ih =>
      rw [encode_cons, List.append_assoc, prefix_code.wellFormed_append_iff]
      exact ih

theorem IsPrefixCode.encode_injective (prefix_code : IsPrefixCode code) {first second : List χ}
    (same : encode code first = encode code second) : first = second := by
  induction first generalizing second with
  | nil =>
      cases second with
      | nil => rfl
      | cons c second =>
          have empty : code c = [] := (List.append_eq_nil_iff.mp same.symm).1
          exact absurd empty (prefix_code.nonempty c)
  | cons c first ih =>
      cases second with
      | nil =>
          have empty : code c = [] := (List.append_eq_nil_iff.mp same).1
          exact absurd empty (prefix_code.nonempty c)
      | cons other second =>
          obtain ⟨rfl, rest_eq⟩ := prefix_code.unique same
          rw [ih rest_eq]

/-! ## Unicode -/

/-- The code of UTF-32: one unit for a character. -/
def utf32 (c : Char) : List UInt32 := [c.val]

theorem utf32_prefix_code : IsPrefixCode utf32 where
  nonempty := fun _ => List.cons_ne_nil _ _
  unique := by
    intro first second left right same
    obtain ⟨val_eq, rest_eq⟩ := List.cons.inj same
    exact ⟨Char.ext val_eq, rest_eq⟩

def IsLead (unit : Nat) : Prop := 0xD800 ≤ unit ∧ unit ≤ 0xDBFF

def IsTrail (unit : Nat) : Prop := 0xDC00 ≤ unit ∧ unit ≤ 0xDFFF

instance (unit : Nat) : Decidable (IsLead unit) := inferInstanceAs (Decidable (_ ∧ _))

instance (unit : Nat) : Decidable (IsTrail unit) := inferInstanceAs (Decidable (_ ∧ _))

/-- The code point of a surrogate pair. -/
def pairValue (lead trail : Nat) : Nat := 0x10000 + (lead - 0xD800) * 0x400 + (trail - 0xDC00)

/-- The lead surrogate of a code point beyond 16 bits. -/
def leadOf (value : Nat) : Nat := 0xD800 + (value - 0x10000) / 0x400

/-- The trail surrogate of a code point beyond 16 bits. -/
def trailOf (value : Nat) : Nat := 0xDC00 + (value - 0x10000) % 0x400

theorem pairValue_eq (lead trail : Nat) :
    pairValue lead trail = 0x10000 + (lead - 0xD800) * 0x400 + (trail - 0xDC00) := rfl

theorem leadOf_eq (value : Nat) : leadOf value = 0xD800 + (value - 0x10000) / 0x400 := rfl

theorem trailOf_eq (value : Nat) : trailOf value = 0xDC00 + (value - 0x10000) % 0x400 := rfl

/-- The code of UTF-16: one unit, or a surrogate pair. -/
def utf16 (c : Char) : List UInt16 :=
  if c.toNat ≤ 0xFFFF then [UInt16.ofNat c.toNat]
  else [UInt16.ofNat (leadOf c.toNat), UInt16.ofNat (trailOf c.toNat)]

theorem toNat_bounds (c : Char) : c.toNat < 0xD800 ∨ 0xDFFF < c.toNat ∧ c.toNat < 0x110000 :=
  c.valid

theorem toNat_ofNat {value : Nat} (valid : value.isValidChar) :
    (Char.ofNat value).toNat = value := by
  rw [Char.ofNat, dif_pos valid]
  rfl

/-- What the units of a character look like. -/
theorem utf16_cases (c : Char) :
    (∃ unit : UInt16, utf16 c = [unit] ∧ ¬IsLead unit.toNat ∧ ¬IsTrail unit.toNat ∧
      unit.toNat = c.toNat) ∨
    ∃ lead trail : UInt16, utf16 c = [lead, trail] ∧ IsLead lead.toNat ∧ IsTrail trail.toNat ∧
      pairValue lead.toNat trail.toNat = c.toNat := by
  have bounds := toNat_bounds c
  rw [utf16]
  by_cases small : c.toNat ≤ 0xFFFF
  · have unit_eq : (UInt16.ofNat c.toNat).toNat = c.toNat :=
      UInt16.toNat_ofNat_of_lt (Nat.lt_succ_of_le small)
    refine Or.inl ⟨UInt16.ofNat c.toNat, if_pos small, ?_, ?_, unit_eq⟩
    · rw [unit_eq, IsLead]
      omega
    · rw [unit_eq, IsTrail]
      omega
  · have lead_value := leadOf_eq c.toNat
    have trail_value := trailOf_eq c.toNat
    have lead_lt : leadOf c.toNat < 0xDC00 := by omega
    have trail_lt : trailOf c.toNat < 0xE000 := by omega
    have lead_eq : (UInt16.ofNat (leadOf c.toNat)).toNat = leadOf c.toNat :=
      UInt16.toNat_ofNat_of_lt (Nat.lt_trans lead_lt (by decide))
    have trail_eq : (UInt16.ofNat (trailOf c.toNat)).toNat = trailOf c.toNat :=
      UInt16.toNat_ofNat_of_lt (Nat.lt_trans trail_lt (by decide))
    refine Or.inr ⟨_, _, if_neg small, ?_, ?_, ?_⟩
    · rw [lead_eq, IsLead]
      exact ⟨Nat.le_add_right _ _, Nat.le_of_lt_succ lead_lt⟩
    · rw [trail_eq, IsTrail]
      exact ⟨Nat.le_add_right _ _, Nat.le_of_lt_succ trail_lt⟩
    · have pair_value := pairValue_eq (leadOf c.toNat) (trailOf c.toNat)
      rw [lead_eq, trail_eq]
      omega

theorem not_trail_of_lead {unit : Nat} (lead : IsLead unit) : ¬IsTrail unit := by
  rw [IsLead] at lead
  rw [IsTrail]
  omega

/-- A unit that is no surrogate is a character. -/
theorem utf16_single {unit : UInt16} (no_lead : ¬IsLead unit.toNat)
    (no_trail : ¬IsTrail unit.toNat) :
    (Char.ofNat unit.toNat).toNat = unit.toNat ∧ utf16 (Char.ofNat unit.toNat) = [unit] := by
  have unit_lt : unit.toNat < 65536 := unit.toNat_lt
  rw [IsLead] at no_lead
  rw [IsTrail] at no_trail
  have value_eq : (Char.ofNat unit.toNat).toNat = unit.toNat :=
    toNat_ofNat (by rw [Nat.isValidChar]; omega)
  refine ⟨value_eq, ?_⟩
  rw [utf16, value_eq, if_pos (by omega), UInt16.ofNat_toNat]

/-- A surrogate pair is a character. -/
theorem utf16_pair {lead trail : UInt16} (is_lead : IsLead lead.toNat)
    (is_trail : IsTrail trail.toNat) :
    (Char.ofNat (pairValue lead.toNat trail.toNat)).toNat = pairValue lead.toNat trail.toNat ∧
      utf16 (Char.ofNat (pairValue lead.toNat trail.toNat)) = [lead, trail] := by
  rw [IsLead] at is_lead
  rw [IsTrail] at is_trail
  have pair_value := pairValue_eq lead.toNat trail.toNat
  have value_eq : (Char.ofNat (pairValue lead.toNat trail.toNat)).toNat =
      pairValue lead.toNat trail.toNat :=
    toNat_ofNat (by rw [Nat.isValidChar]; omega)
  have lead_eq : leadOf (pairValue lead.toNat trail.toNat) = lead.toNat := by
    have value := leadOf_eq (pairValue lead.toNat trail.toNat)
    omega
  have trail_eq : trailOf (pairValue lead.toNat trail.toNat) = trail.toNat := by
    have value := trailOf_eq (pairValue lead.toNat trail.toNat)
    omega
  have large : ¬pairValue lead.toNat trail.toNat ≤ 0xFFFF := by omega
  refine ⟨value_eq, ?_⟩
  rw [utf16, value_eq, if_neg large, lead_eq, trail_eq, UInt16.ofNat_toNat, UInt16.ofNat_toNat]

theorem utf16_prefix_code : IsPrefixCode utf16 where
  nonempty := by
    intro c
    rw [utf16]
    split <;> exact List.cons_ne_nil _ _
  unique := by
    intro first second left right same
    have char_eq : first.toNat = second.toNat → first = second := Char.toNat_inj.mp
    rcases utf16_cases first with ⟨unit, code_eq, no_lead, _, value_eq⟩ |
        ⟨lead, trail, code_eq, is_lead, _, value_eq⟩ <;>
      rcases utf16_cases second with ⟨other, other_eq, other_no_lead, _, other_value⟩ |
        ⟨other, other_trail, other_eq, other_lead, _, other_value⟩ <;>
      rw [code_eq, other_eq] at same
    · obtain ⟨rfl, rest_eq⟩ := List.cons.inj same
      exact ⟨char_eq (value_eq.symm.trans other_value), rest_eq⟩
    · exact absurd ((List.cons.inj same).1 ▸ other_lead) no_lead
    · exact absurd ((List.cons.inj same).1 ▸ is_lead) other_no_lead
    · obtain ⟨rfl, more_eq⟩ := List.cons.inj same
      obtain ⟨rfl, rest_eq⟩ := List.cons.inj more_eq
      exact ⟨char_eq (value_eq.symm.trans other_value), rest_eq⟩

/-- No character starts with a trail surrogate. -/
theorem not_starts_trail {unit : UInt16} {rest : List UInt16} (is_trail : IsTrail unit.toNat) :
    ¬Starts utf16 (unit :: rest) := by
  rintro ⟨c, behind, same⟩
  rcases utf16_cases c with ⟨single, code_eq, _, no_trail, _⟩ |
      ⟨lead, trail, code_eq, is_lead, _, _⟩ <;> rw [code_eq] at same
  · exact no_trail ((List.cons.inj same).1 ▸ is_trail)
  · exact not_trail_of_lead is_lead ((List.cons.inj same).1 ▸ is_trail)

/-- A lead surrogate needs a trail surrogate behind it. -/
theorem not_starts_lead {unit : UInt16} {rest : List UInt16} (is_lead : IsLead unit.toNat)
    (unpaired : ∀ trail ∈ rest.head?, ¬IsTrail trail.toNat) : ¬Starts utf16 (unit :: rest) := by
  rintro ⟨c, behind, same⟩
  rcases utf16_cases c with ⟨single, code_eq, no_lead, _, _⟩ |
      ⟨lead, trail, code_eq, _, is_trail, _⟩ <;> rw [code_eq] at same
  · exact no_lead ((List.cons.inj same).1 ▸ is_lead)
  · have rest_eq := (List.cons.inj same).2
    exact unpaired trail (by rw [rest_eq]; rfl) is_trail

/-! ## Segments -/

/-- UTF-16 as it is read where nothing is refused: surrogate pairs, and single units otherwise. -/
def segments : List UInt16 → List (List UInt16)
  | [] => []
  | [unit] => [[unit]]
  | unit :: next :: rest =>
      if IsLead unit.toNat ∧ IsTrail next.toNat then [unit, next] :: segments rest
      else [unit] :: segments (next :: rest)

/-- A lead surrogate without its trail. -/
def loneLead : List UInt16 → Bool
  | [unit] => IsLead unit.toNat
  | _ => false

/-- A trail surrogate without its lead. -/
def loneTrail : List UInt16 → Bool
  | [unit] => IsTrail unit.toNat
  | _ => false

theorem segments_pair {lead trail : UInt16} (is_lead : IsLead lead.toNat)
    (is_trail : IsTrail trail.toNat) (rest : List UInt16) :
    segments (lead :: trail :: rest) = [lead, trail] :: segments rest := by
  rw [segments, if_pos ⟨is_lead, is_trail⟩]

theorem segments_single {unit : UInt16} {rest : List UInt16}
    (unpaired : IsLead unit.toNat → ∀ next ∈ rest.head?, ¬IsTrail next.toNat) :
    segments (unit :: rest) = [unit] :: segments rest := by
  cases rest with
  | nil => rfl
  | cons next rest => rw [segments, if_neg fun both => unpaired both.1 next rfl both.2]

end CharacterCode
