import RobotSoccer.Json.Numeral

/-!
# Reading the parts of a number

A number text without its sign is its whole digits, maybe a point with more digits, and maybe a
power of ten, with a letter of either case and a sign or none. The reader takes exactly these
parts when what follows could not go on with the number, and gives what they say.
-/

namespace RobotSoccer

namespace Ascii

/-- Whether a byte can go on with a number that has begun. -/
def continuesNumber (byte : UInt8) : Bool :=
  isDigit byte || byte == point || byte == lowerE || byte == upperE

end Ascii

namespace Reader

/-- Bytes at whose front no number that ends before them goes on. -/
def Apart (rest : Bytes) : Prop := ∀ b ∈ rest.head?, Ascii.continuesNumber b = false

/-- Nothing stands apart from what is before it. -/
theorem apart_nil : Apart [] := by
  intro b hb
  cases hb

/-- Whether bytes stand apart is settled by the first of them. -/
theorem apart_cons {b : UInt8} (rest : Bytes) (h : Ascii.continuesNumber b = false) :
    Apart (b :: rest) := by
  intro c hc
  cases hc
  exact h

/-- Digits that are there are taken, up to the first byte that is none. -/
theorem digits_append (atEnd : Fault) {found rest : Bytes} (hne : found ≠ [])
    (hall : ∀ b ∈ found, Ascii.isDigit b = true)
    (hstop : ∀ b ∈ rest.head?, Ascii.isDigit b = false) :
    digits atEnd (found ++ rest) = .ok (found, rest) := by
  have htake : (found ++ rest).takeWhile Ascii.isDigit = found := by
    rw [List.takeWhile_append_of_pos hall]
    cases rest with
    | nil => rw [List.takeWhile_nil, List.append_nil]
    | cons b rest =>
      have hb : ¬Ascii.isDigit b = true := by simp [hstop b rfl]
      rw [List.takeWhile_cons_of_neg hb, List.append_nil]
  have hdrop : (found ++ rest).dropWhile Ascii.isDigit = rest := by
    rw [List.dropWhile_append_of_pos hall]
    cases rest with
    | nil => rfl
    | cons b rest =>
      have hb : ¬Ascii.isDigit b = true := by simp [hstop b rfl]
      exact List.dropWhile_cons_of_neg hb
  unfold digits
  dsimp only
  rw [htake, hdrop]
  cases found with
  | nil => exact absurd rfl hne
  | cons d found => rfl

end Reader

/-- The parts of a number text without its sign. -/
structure NumberParts where
  /-- The digits before the point. -/
  whole : Bytes
  /-- The digits after the point, when there is one. -/
  part? : Option Bytes
  /-- Whether the power of ten is negative, and its digits, when one is written. -/
  power? : Option (Bool × Bytes)

namespace NumberParts

/-- The bytes of a point with digits behind it. -/
def partBytes : Option Bytes → Bytes
  | none => []
  | some part => Ascii.point :: part

/-- The bytes of a power of ten; its sign is always written. -/
def powerBytes : Option (Bool × Bytes) → Bytes
  | none => []
  | some (negative, found) =>
    Ascii.lowerE :: (if negative then Ascii.minus else Ascii.plus) :: found

/-- The bytes of a sign, which may be missing, and whether it is a minus. -/
inductive SignForm : Bytes → Bool → Prop
  /-- No sign. -/
  | none : SignForm [] false
  /-- A plus sign. -/
  | plus : SignForm [Ascii.plus] false
  /-- A minus sign. -/
  | minus : SignForm [Ascii.minus] true

/-- The bytes of a power of ten, which may be missing. -/
inductive PowerForm : Bytes → Option (Bool × Bytes) → Prop
  /-- No power. -/
  | none : PowerForm [] none
  /-- A letter of either case, a sign that may be missing, and the digits. -/
  | some {letter : UInt8} {sign found : Bytes} {negative : Bool}
    (hletter : letter = Ascii.lowerE ∨ letter = Ascii.upperE) (hsign : SignForm sign negative) :
    PowerForm (letter :: (sign ++ found)) (some (negative, found))

/-- A power of ten is written in one of its forms. -/
theorem powerForm_powerBytes (power? : Option (Bool × Bytes)) :
    PowerForm (powerBytes power?) power? := by
  cases power? with
  | none => exact .none
  | some power =>
    obtain ⟨negative, found⟩ := power
    cases negative with
    | false => exact .some (.inl rfl) .plus
    | true => exact .some (.inl rfl) .minus

/-- The bytes of the parts in their order. -/
def bytes (parts : NumberParts) : Bytes :=
  parts.whole ++ (partBytes parts.part? ++ powerBytes parts.power?)

/-- The power of ten that is written. -/
def powerValue : Option (Bool × Bytes) → Int
  | none => 0
  | some (negative, found) =>
    if negative then -(Ascii.digitsValue found : Int) else Ascii.digitsValue found

/-- What the parts say, with or without a minus sign. -/
def said (negative : Bool) (parts : NumberParts) : Numeral :=
  ⟨negative, parts.whole, parts.part?, parts.power?.map fun power => powerValue (some power)⟩

/-- The decimal that the parts spell. -/
def decimal (parts : NumberParts) : Decimal :=
  ⟨Ascii.digitsValue (parts.whole ++ parts.part?.getD []),
    powerValue parts.power? - (parts.part?.getD []).length⟩

/-- Some digits and nothing else. -/
def Digits (found : Bytes) : Prop := found ≠ [] ∧ ∀ b ∈ found, Ascii.isDigit b = true

/-- The parts follow the grammar: digits in each place, and no zero in front of other digits. -/
structure WellFormed (parts : NumberParts) : Prop where
  /-- There are digits before the point. -/
  whole : Digits parts.whole
  /-- They start with no zero unless it stands alone. -/
  lead : ¬(parts.whole.head? = some Ascii.zero ∧ parts.whole.length ≠ 1)
  /-- There are digits after a point. -/
  part : ∀ part ∈ parts.part?, Digits part
  /-- There are digits in a power. -/
  power : ∀ power ∈ parts.power?, Digits power.2

variable {parts : NumberParts} {rest : Bytes}

/-- The whole digits are taken up to what follows them. -/
theorem WellFormed.wholeDigits_append (h : parts.WellFormed) (atEnd : Fault)
    (hstop : ∀ b ∈ rest.head?, Ascii.isDigit b = false) :
    Reader.wholeDigits atEnd (parts.whole ++ rest) = .ok (parts.whole, rest) := by
  rw [Reader.wholeDigits, Reader.digits_append atEnd h.whole.1 h.whole.2 hstop]
  exact if_neg h.lead

/-- The digits after the point are taken, or that there is no point is seen. -/
theorem WellFormed.fraction_append (h : parts.WellFormed) (atEnd : Fault)
    (hstop : ∀ b ∈ rest.head?, Ascii.isDigit b = false ∧ b ≠ Ascii.point) :
    Reader.fraction atEnd (partBytes parts.part? ++ rest) = .ok (parts.part?, rest) := by
  cases hpart : parts.part? with
  | none =>
    cases rest with
    | nil => rfl
    | cons b rest => exact if_neg (hstop b rfl).2
  | some part =>
    have hdigits := h.part part hpart
    unfold partBytes Reader.fraction
    dsimp only [List.cons_append]
    rw [if_pos rfl, Reader.digits_append atEnd hdigits.1 hdigits.2 fun b hb => (hstop b hb).1]

/-- A sign is seen in front of digits, or that there is none. -/
theorem SignForm.sign_append {sign found : Bytes} {negative : Bool} (h : SignForm sign negative)
    (hdigits : Digits found) (rest : Bytes) :
    Reader.sign (sign ++ (found ++ rest)) = (negative, found ++ rest) := by
  cases h with
  | plus => rfl
  | minus => rfl
  | none =>
    obtain ⟨hne, hall⟩ := hdigits
    cases found with
    | nil => exact absurd rfl hne
    | cons d found =>
      have hd := hall d List.mem_cons_self
      have hminus : d ≠ Ascii.minus := fun heq => absurd (heq ▸ hd) (by decide)
      have hplus : d ≠ Ascii.plus := fun heq => absurd (heq ▸ hd) (by decide)
      change Reader.sign (d :: (found ++ rest)) = _
      rw [Reader.sign, if_neg hminus, if_neg hplus]
      rfl

/-- The power of ten is taken in any of its forms, or that there is none is seen. -/
theorem WellFormed.power_append (h : parts.WellFormed) {bytes : Bytes}
    (hform : PowerForm bytes parts.power?) (atEnd : Fault) (hrest : Reader.Apart rest) :
    Reader.power atEnd (bytes ++ rest) =
      .ok (parts.power?.map fun power => powerValue (some power), rest) := by
  generalize hpower : parts.power? = power? at hform ⊢
  cases hform with
  | none =>
    cases rest with
    | nil => rfl
    | cons b rest =>
      have hb := hrest b rfl
      simp only [Ascii.continuesNumber, Bool.or_eq_false_iff, beq_eq_false_iff_ne] at hb
      exact if_neg fun he => he.elim hb.1.2 hb.2
  | @some letter sign found negative hletter hsign =>
    have hdigits := h.power (negative, found) hpower
    have hstop : ∀ b ∈ rest.head?, Ascii.isDigit b = false := by
      intro b hb
      have hc := hrest b hb
      simp only [Ascii.continuesNumber, Bool.or_eq_false_iff] at hc
      exact hc.1.1.1
    have htake := Reader.digits_append atEnd hdigits.1 hdigits.2 hstop
    rw [List.cons_append, List.append_assoc]
    unfold Reader.power
    dsimp only
    rw [if_pos hletter, hsign.sign_append hdigits]
    dsimp only
    rw [htake]
    rfl

/-- What is behind the point or in its place does not go on with the whole digits. -/
theorem PowerForm.head?_append {bytes : Bytes} {power? : Option (Bool × Bytes)}
    (h : PowerForm bytes power?) (hrest : Reader.Apart rest) :
    ∀ b ∈ (bytes ++ rest).head?, Ascii.isDigit b = false ∧ b ≠ Ascii.point := by
  intro b hb
  cases h with
  | none =>
    have hc := hrest b hb
    simp only [Ascii.continuesNumber, Bool.or_eq_false_iff, beq_eq_false_iff_ne] at hc
    exact hc.1.1
  | some hletter hsign =>
    cases hb
    rcases hletter with rfl | rfl
    · decide
    · decide

/-- The reader takes exactly the parts and gives what they say. -/
theorem WellFormed.unsigned_append (h : parts.WellFormed) {bytes : Bytes}
    (hform : PowerForm bytes parts.power?) (atEnd : Fault) (negative : Bool)
    (hrest : Reader.Apart rest) :
    Reader.unsigned atEnd negative (parts.whole ++ (partBytes parts.part? ++ bytes) ++ rest) =
      .ok (said negative parts, rest) := by
  have hafter := hform.head?_append hrest
  have hbehind : ∀ b ∈ (partBytes parts.part? ++ (bytes ++ rest)).head?,
      Ascii.isDigit b = false := by
    intro b hb
    cases hpart : parts.part? with
    | none =>
      rw [hpart] at hb
      exact (hafter b hb).1
    | some part =>
      rw [hpart] at hb
      cases hb
      decide
  rw [Reader.unsigned]
  rw [List.append_assoc, List.append_assoc, h.wholeDigits_append atEnd hbehind]
  dsimp only
  rw [h.fraction_append atEnd hafter]
  dsimp only
  rw [h.power_append hform atEnd hrest]
  rfl

/-- What is written of a number starts with a digit. -/
theorem WellFormed.exists_digit_cons (h : parts.WellFormed) (rest : Bytes) :
    ∃ d more, parts.whole ++ rest = d :: more ∧ Ascii.isDigit d = true := by
  obtain ⟨hne, hall⟩ := h.whole
  cases hwhole : parts.whole with
  | nil => exact absurd hwhole hne
  | cons d more =>
    rw [hwhole] at hall
    exact ⟨d, more ++ rest, rfl, hall d List.mem_cons_self⟩

end NumberParts

/-- The bytes of a number and what they say: a minus sign or none, and the parts. -/
inductive NumberForm : Bytes → Numeral → Prop
  /-- A sign in front of parts that follow the grammar. -/
  | parts {parts : NumberParts} {power : Bytes} (negative : Bool) (hparts : parts.WellFormed)
    (hpower : NumberParts.PowerForm power parts.power?) :
    NumberForm ((if negative then [Ascii.minus] else []) ++
        (parts.whole ++ (NumberParts.partBytes parts.part? ++ power)))
      (NumberParts.said negative parts)

namespace NumberForm

variable {bytes rest : Bytes} {said : Numeral}

/-- The bytes of a number start as those of one. -/
theorem exists_cons (h : NumberForm bytes said) :
    ∃ b more, bytes = b :: more ∧ Reader.startsNumber b = true := by
  cases h with
  | @parts parts power negative hparts hpower =>
    cases negative with
    | true => exact ⟨Ascii.minus, _, rfl, rfl⟩
    | false =>
      obtain ⟨d, more, hcons, hdigit⟩ :=
        hparts.exists_digit_cons (NumberParts.partBytes parts.part? ++ power)
      refine ⟨d, more, hcons, ?_⟩
      rw [Reader.startsNumber, hdigit, Bool.or_true]

/-- The bytes of a number are read as what they say. -/
theorem numeral_append (h : NumberForm bytes said) (atEnd : Fault) (hrest : Reader.Apart rest) :
    Reader.numeral atEnd (bytes ++ rest) = .ok (said, rest) := by
  cases h with
  | @parts parts power negative hparts hpower =>
    have hread := hparts.unsigned_append hpower atEnd negative hrest
    cases negative with
    | true => exact hread
    | false =>
      simp only [Bool.false_eq_true, if_false, List.nil_append]
      obtain ⟨d, more, hcons, hdigit⟩ :=
        hparts.exists_digit_cons (NumberParts.partBytes parts.part? ++ power ++ rest)
      rw [List.append_assoc, hcons] at hread ⊢
      have hminus : d ≠ Ascii.minus := fun heq => absurd (heq ▸ hdigit) (by decide)
      rw [Reader.numeral, if_neg hminus]
      exact hread

/-- The bytes of a number that has a meaning are read as that meaning. -/
theorem number_append {value : NumberValue} (h : NumberForm bytes said)
    (hvalue : said.value? = some value) (hrest : Reader.Apart rest) :
    Reader.number (bytes ++ rest) = .ok (value, rest) := by
  rw [Reader.number, h.numeral_append .endOfInput hrest]
  dsimp only
  rw [hvalue]

end NumberForm

end RobotSoccer
