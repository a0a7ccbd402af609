import RobotSoccer.Proofs.Json.DigitText
import RobotSoccer.Proofs.Json.NumberMeaning
import RobotSoccer.Proofs.Number.Spelling

/-!
# Number texts are read

The positional and the scientific text of a decimal have parts that spell it, up to zeros behind
its digits. So the text of a finite double is read as a finite double, which is near to it but need
not be the same, and the text of a whole number that fits 64 bits is read as that number.
-/

namespace RobotSoccer

open Number

/-- The characters of an unsigned number, before they are written as bytes. -/
structure NumberChars where
  /-- The digits before the point. -/
  whole : List Char
  /-- The digits after the point, when there is one. -/
  part? : Option (List Char)
  /-- The power of ten, when one is written. -/
  power? : Option Int

namespace NumberChars

/-- The characters in their order. -/
def chars (number : NumberChars) : List Char :=
  number.whole ++ ((number.part?.map fun part => '.' :: part).getD [] ++
    (number.power?.map fun power =>
      'e' :: (if power < 0 then '-' else '+') :: naturalText power.natAbs).getD [])

/-- The parts that the characters are written as. -/
def parts (number : NumberChars) : NumberParts :=
  ⟨Utf8.encodeChars number.whole, number.part?.map Utf8.encodeChars,
    number.power?.map fun power =>
      (decide (power < 0), Utf8.encodeChars (naturalText power.natAbs))⟩

/-- The characters follow the grammar: digits in each place, and no needless zero in front. -/
structure WellFormed (number : NumberChars) : Prop where
  /-- Before the point are digits. -/
  whole : DigitChars number.whole
  /-- There is one at least. -/
  some_whole : number.whole ≠ []
  /-- A zero in front stands alone. -/
  lead : number.whole.head? = some '0' → number.whole.length = 1
  /-- Behind the point are digits, one at least. -/
  part : ∀ part ∈ number.part?, DigitChars part ∧ part ≠ []

/-- The characters are written as their parts. -/
theorem encodeChars_chars (number : NumberChars) :
    Utf8.encodeChars number.chars = number.parts.bytes := by
  obtain ⟨whole, part?, power?⟩ := number
  rw [chars, parts, NumberParts.bytes, Utf8.encodeChars_append, Utf8.encodeChars_append]
  congr 2
  · cases part? <;> rfl
  · cases power? with
    | none => rfl
    | some power =>
      by_cases hsign : power < 0
      · simp only [Option.map_some, Option.getD_some, hsign, if_true, decide_true,
          Utf8.encodeChars_cons]
        rfl
      · simp only [Option.map_some, Option.getD_some, hsign, if_false, decide_false,
          Utf8.encodeChars_cons]
        rfl

/-- Characters that follow the grammar are written as bytes that do. -/
theorem WellFormed.parts {number : NumberChars} (h : number.WellFormed) :
    number.parts.WellFormed where
  whole := NumberParts.digits_encodeChars h.whole h.some_whole
  lead := by
    rintro ⟨hhead, hlength⟩
    rw [NumberChars.parts] at hhead hlength
    dsimp only at hhead hlength
    rw [(Utf8.encodeChars_digits h.whole).2] at hlength
    exact Utf8.head?_encodeChars_digits h.whole (fun hzero => hlength (h.lead hzero)) hhead
  part := by
    intro found hfound
    obtain ⟨part, hpart, rfl⟩ := Option.map_eq_some_iff.1 hfound
    obtain ⟨hdigits, hne⟩ := h.part part hpart
    exact NumberParts.digits_encodeChars hdigits hne
  power := by
    intro found hfound
    obtain ⟨power, -, rfl⟩ := Option.map_eq_some_iff.1 hfound
    exact NumberParts.digits_encodeChars (digitChars_naturalText _) Nat.toDigits_ne_nil

/-- The power of ten of the parts, read off the characters. -/
theorem powerValue_parts (number : NumberChars) :
    NumberParts.powerValue number.parts.power? = number.power?.getD 0 := by
  rw [NumberChars.parts]
  cases number.power? with
  | none => rfl
  | some power =>
    have hvalue : Ascii.digitsValue (Utf8.encodeChars (naturalText power.natAbs)) = power.natAbs := by
      rw [Utf8.digitsValue_encodeChars (digitChars_naturalText _), ofDigitChars_naturalText]
    simp only [Option.map_some, NumberParts.powerValue, hvalue, Option.getD_some, decide_eq_true_eq]
    split <;> omega

/-- The decimal that the parts spell, read off the characters. -/
theorem WellFormed.decimal_parts {number : NumberChars} (h : number.WellFormed) :
    number.parts.decimal =
      ⟨Nat.ofDigitChars 10 (number.whole ++ number.part?.getD []) 0,
        number.power?.getD 0 - (number.part?.getD []).length⟩ := by
  have hpart : DigitChars (number.part?.getD []) := by
    cases hsome : number.part? with
    | none => exact fun c hc => absurd hc List.not_mem_nil
    | some part => exact (h.part part hsome).1
  have hencode : (number.part?.map Utf8.encodeChars).getD [] =
      Utf8.encodeChars (number.part?.getD []) := by
    cases number.part? <;> rfl
  rw [NumberParts.decimal, powerValue_parts]
  rw [NumberChars.parts]
  dsimp only
  rw [hencode, ← Utf8.encodeChars_append, Utf8.digitsValue_encodeChars (h.whole.append hpart),
    (Utf8.encodeChars_digits hpart).2]

/-- Characters that are written with a point or a power and are read as a decimal is. -/
structure Spell (number : NumberChars) (d : Decimal) : Prop where
  /-- The characters follow the grammar. -/
  wellFormed : number.WellFormed
  /-- The decimal that they spell is read as the given one. -/
  nearest : number.parts.decimal.nearestBits = d.nearestBits
  /-- They do not have the form of a whole number. -/
  pointed : (number.part?.isNone && number.power?.isNone) = false

/-- Characters of a decimal with few digits before the point. Where a power is written it is that of
the first digit, which is none of zero. -/
structure Modest (number : NumberChars) (d : Decimal) : Prop where
  /-- There are few digits before the point. -/
  whole : number.whole.length ≤ 16
  /-- A power of ten is that of the first digit. -/
  power : ∀ power ∈ number.power?,
    d.digits ≠ 0 ∧ power + 1 = (naturalText d.digits).length + d.exponent

section Digits

variable {digits : List Char} {a : Nat} (hdigits : DigitChars digits)
  (hvalue : Nat.ofDigitChars 10 digits 0 = a) (hne : digits ≠ [])
  (hlead : digits.head? ≠ some '0')

include hdigits hvalue hne

/-- Digits behind a zero, a point and more zeros. -/
theorem spell_behind_zeros (zeros : Nat) :
    Spell ⟨['0'], some (List.replicate zeros '0' ++ digits), none⟩
      ⟨a, -(zeros + digits.length : Nat)⟩ := by
  have hw : WellFormed ⟨['0'], some (List.replicate zeros '0' ++ digits), none⟩ := by
    refine ⟨digitChars_zeros 1, by simp, fun _ => rfl, ?_⟩
    intro part hsome
    cases hsome
    exact ⟨(digitChars_zeros zeros).append hdigits, by simp [hne]⟩
  refine ⟨hw, ?_, rfl⟩
  rw [hw.decimal_parts]
  congr 2
  · simpa [Nat.ofDigitChars_cons, Nat.ofDigitChars_append] using hvalue
  · simp only [Option.getD_none, Option.getD_some, List.length_append, List.length_replicate]
    omega

include hlead

/-- Digits before zeros, a point and one more zero. -/
theorem spell_before_zeros (zeros : Nat) :
    Spell ⟨digits ++ List.replicate zeros '0', some ['0'], none⟩ ⟨a, zeros⟩ := by
  have hw : WellFormed ⟨digits ++ List.replicate zeros '0', some ['0'], none⟩ := by
    refine ⟨hdigits.append (digitChars_zeros zeros), by simp [hne], fun hzero => ?_, ?_⟩
    · cases digits with
      | nil => exact absurd rfl hne
      | cons c cs => exact absurd hzero hlead
    · intro part hsome
      cases hsome
      exact ⟨digitChars_zeros 1, by simp⟩
  have hzeros : digits ++ List.replicate zeros '0' ++ ['0'] =
      digits ++ List.replicate (zeros + 1) '0' := by
    rw [List.append_assoc, List.replicate_succ']
  refine ⟨hw, ?_, rfl⟩
  rw [hw.decimal_parts, ← Decimal.nearestBits_zeros_behind (zeros + 1) ⟨a, zeros⟩]
  congr 2
  · simp only [Option.getD_some, hzeros, Nat.ofDigitChars_append, hvalue,
      Nat.ofDigitChars_replicate_zero]
    exact Nat.mul_comm _ _
  · simp only [Option.getD_none, Option.getD_some, List.length_singleton]
    omega

/-- Digits with the point among them. -/
theorem spell_split {n : Nat} (hpos : 0 < n) (hlt : n < digits.length) :
    Spell ⟨digits.take n, some (digits.drop n), none⟩ ⟨a, (n : Int) - digits.length⟩ := by
  have hw : WellFormed ⟨digits.take n, some (digits.drop n), none⟩ := by
    refine ⟨fun c hc => hdigits c (List.mem_of_mem_take hc), ?_, fun hzero => ?_, ?_⟩
    · rw [ne_eq, List.take_eq_nil_iff]
      exact fun h => h.elim (Nat.ne_of_gt hpos) hne
    · dsimp only at hzero
      rw [List.head?_take, if_neg (Nat.ne_of_gt hpos)] at hzero
      exact absurd hzero hlead
    · intro part hsome
      cases hsome
      refine ⟨fun c hc => hdigits c (List.mem_of_mem_drop hc), ?_⟩
      rw [ne_eq, List.drop_eq_nil_iff]
      omega
  refine ⟨hw, ?_, rfl⟩
  rw [hw.decimal_parts]
  congr 2
  · simp only [Option.getD_some, List.take_append_drop]
    exact hvalue
  · simp only [Option.getD_none, Option.getD_some, List.length_drop]
    omega

omit hne hlead

/-- The first digit, the others behind a point when there are any, and a power of ten. -/
theorem spell_scientific {c : Char} {rest : List Char} (hcons : digits = c :: rest) (power : Int) :
    Spell ⟨[c], if rest = [] then none else some rest, some power⟩
      ⟨a, power - rest.length⟩ := by
  subst hcons
  have hw : WellFormed ⟨[c], if rest = [] then none else some rest, some power⟩ := by
    refine ⟨?_, by simp, fun _ => rfl, ?_⟩
    · intro d hd
      rw [List.mem_singleton.1 hd]
      exact hdigits c List.mem_cons_self
    · intro part hsome
      by_cases hrest : rest = []
      · simp [hrest] at hsome
      · simp only [hrest, if_false, Option.mem_def, Option.some.injEq] at hsome
        subst hsome
        exact ⟨fun d hd => hdigits d (List.mem_cons_of_mem _ hd), hrest⟩
  have hpart : (if rest = [] then none else some rest).getD [] = rest := by
    by_cases hrest : rest = []
    · rw [if_pos hrest, hrest]
      rfl
    · rw [if_neg hrest]
      rfl
  refine ⟨hw, ?_, Bool.and_false _⟩
  rw [hw.decimal_parts]
  simp only [hpart, List.singleton_append, hvalue, Option.getD_some]

include hne in
/-- Digits written in the scientific form. -/
theorem exists_spell_scientific (e : Int) :
    ∃ number : NumberChars, number.chars = scientific digits (digits.length + e) ∧
      number.Spell ⟨a, e⟩ ∧ number.whole.length ≤ 16 ∧
      number.power? = some ((digits.length : Int) + e - 1) := by
  cases hcons : digits with
  | nil => exact absurd hcons hne
  | cons c rest =>
    have hs := spell_scientific hdigits hvalue hcons ((digits.length : Int) + e - 1)
    have hplace : (digits.length : Int) + e - 1 - rest.length = e := by
      rw [hcons, List.length_cons]
      omega
    rw [hplace, hcons] at hs
    refine ⟨_, ?_, hs, by simp, rfl⟩
    unfold scientific chars
    cases rest <;> simp

include hne hlead in
/-- Digits written in the positional form, when not too many of them stand before the point. -/
theorem exists_spell_positional {e : Int} (hfew : digits.length + e ≤ 16) :
    ∃ number : NumberChars, number.chars = positional digits (digits.length + e) ∧
      number.Spell ⟨a, e⟩ ∧ number.whole.length ≤ 16 ∧ number.power? = none := by
  unfold positional
  by_cases hlow : (digits.length : Int) + e ≤ 0
  · have hs := spell_behind_zeros hdigits hvalue hne (-((digits.length : Int) + e)).toNat
    have hplace : -(((-((digits.length : Int) + e)).toNat + digits.length : Nat) : Int) = e := by omega
    rw [hplace] at hs
    rw [if_pos hlow]
    exact ⟨_, by simp [chars], hs, show 1 ≤ 16 by decide, rfl⟩
  rw [if_neg hlow]
  dsimp only
  by_cases hlong : digits.length ≤ ((digits.length : Int) + e).toNat
  · have hs := spell_before_zeros hdigits hvalue hne hlead
      (((digits.length : Int) + e).toNat - digits.length)
    have hplace : ((((digits.length : Int) + e).toNat - digits.length : Nat) : Int) = e := by omega
    rw [hplace] at hs
    rw [if_pos hlong]
    refine ⟨_, by simp [chars], hs, ?_, rfl⟩
    rw [List.length_append, List.length_replicate]
    omega
  · have hs := spell_split hdigits hvalue hne hlead
      (show 0 < ((digits.length : Int) + e).toNat by omega) (by omega)
    have hplace : (((digits.length : Int) + e).toNat : Int) - digits.length = e := by omega
    rw [hplace] at hs
    rw [if_neg hlong]
    refine ⟨_, by simp [chars], hs, ?_, rfl⟩
    rw [List.length_take]
    omega

end Digits

/-- The text of a decimal, positional or scientific, spells it. -/
theorem exists_spell_decimalText (d : Decimal) :
    ∃ number : NumberChars, number.chars = decimalText d ∧ number.Spell d ∧ number.Modest d := by
  obtain ⟨a, e⟩ := d
  have hdigits := digitChars_naturalText a
  have hvalue := ofDigitChars_naturalText a
  have hne : naturalText a ≠ [] := Nat.toDigits_ne_nil
  rw [decimalText]
  dsimp only
  by_cases ha : a = 0
  · subst ha
    have hzero : naturalText 0 = ['0'] := rfl
    obtain ⟨hw, -, hpoint⟩ := spell_behind_zeros hdigits hvalue hne 0
    refine ⟨_, ?_, ⟨hw, ?_, hpoint⟩, (by decide), fun power hpower => (Option.not_mem_none power hpower).elim⟩
    · rw [if_pos rfl, hzero]
      rfl
    · rw [hw.decimal_parts]
      simp [hzero, Nat.ofDigitChars_cons, Decimal.nearestBits, Decimal.normal, Decimal.stripZeros,
        Decimal.roundedBits]
  rw [if_neg ha]
  by_cases hwire : wireRange.lowest ≤ (naturalText a).length + e ∧
      (naturalText a).length + e ≤ wireRange.highest
  · have hlead := head?_naturalText (Nat.pos_of_ne_zero ha)
    obtain ⟨number, hchars, hspell, hwhole, hnone⟩ :=
      exists_spell_positional hdigits hvalue hne hlead hwire.2
    rw [if_pos hwire]
    refine ⟨number, hchars, hspell, hwhole, fun power hpower => ?_⟩
    exact absurd (hnone.symm.trans hpower) (Option.some_ne_none power).symm
  · obtain ⟨number, hchars, hspell, hwhole, hsome⟩ := exists_spell_scientific hdigits hvalue hne e
    rw [if_neg hwire]
    refine ⟨number, hchars, hspell, hwhole, fun power hpower => ⟨ha, ?_⟩⟩
    have heq := Option.some.inj (hsome.symm.trans hpower)
    dsimp only
    omega

/-- A positive number is at least the power of ten of its first digit. -/
theorem pow_le_of_naturalText {a : Nat} (ha : a ≠ 0) :
    10 ^ ((Number.naturalText a).length - 1) ≤ a := by
  by_contra hless
  have hlt : a < 10 ^ ((Number.naturalText a).length - 1) := by omega
  have hne : 0 < (Number.naturalText a).length - 1 := by
    by_contra hzero
    rw [Nat.eq_zero_of_not_pos hzero, Nat.pow_zero] at hlt
    omega
  have hshort : (Number.naturalText a).length ≤ (Number.naturalText a).length - 1 :=
    Nat.toDigits_length 10 a _ hne hlt
  omega

/-- The power of ten of a decimal that is near to a finite double is one of those that have a double
near to them. -/
theorem Modest.power_le {number : NumberChars} {d : Decimal} (h : number.Modest d)
    (hfinite : d.nearestBits < Binary64.infinityBits) {power : Int}
    (hpower : number.power? = some power) : power ≤ PowerOfTen.greatest := by
  obtain ⟨hne, hfirst⟩ := h.power power hpower
  obtain ⟨digits, exponent⟩ := d
  dsimp only at hne hfirst
  have hlength : 0 < (naturalText digits).length := List.length_pos_of_ne_nil Nat.toDigits_ne_nil
  have hdigits : (10 : ℚ) ^ (((naturalText digits).length - 1 : ℕ) : ℤ) ≤ digits := by
    rw [zpow_natCast]
    exact_mod_cast pow_le_of_naturalText hne
  have hten : (10 : ℚ) ^ power ≤ digits * 10 ^ exponent := by
    have hscale : (0 : ℚ) ≤ 10 ^ exponent := zpow_nonneg (by norm_num) _
    calc (10 : ℚ) ^ power = 10 ^ (((naturalText digits).length - 1 : ℕ) : ℤ) * 10 ^ exponent := by
          rw [← zpow_add₀ (by norm_num)]
          congr 1
          omega
      _ ≤ digits * 10 ^ exponent := mul_le_mul_of_nonneg_right hdigits hscale
  have hless {n : Nat} (hinfinite : Binary64.nearestBits (Decimal.tenTo n) 0 = Binary64.infinityBits) :
      power < n := by
    have hbelow : Decimal.nearestBits ⟨digits, exponent⟩ < Binary64.nearestBits (Decimal.tenTo n) 0 := by
      rw [hinfinite]
      exact hfinite
    have hvalue := hten.trans_lt (Decimal.value_lt_of_nearestBits hbelow)
    rw [Decimal.cast_tenTo, ← zpow_natCast] at hvalue
    exact (zpow_lt_zpow_iff_right₀ (by norm_num : (1 : ℚ) < 10)).1 hvalue
  have hpast : power < (PowerOfTen.greatest + 1 : Nat) := hless (by decide +kernel)
  omega

end NumberChars

namespace NumberParts

/-- The bytes of a number, a minus sign in front when it is negative. -/
def signedBytes (negative : Bool) (parts : NumberParts) : Bytes :=
  (if negative then [Ascii.minus] else []) ++ parts.bytes

end NumberParts

namespace Number

open NumberParts

/-- The double that the text of a double is read as. The text of one that is not finite is not read as
a number, and the double stays what it is. -/
def reread (x : Float) : Float :=
  match Reader.number (Utf8.encodeChars (numberText x)) with
  | .error _ => x
  | .ok (value, _) => value.toFloat

/-- A double whose own text is read as it. -/
def ReadsBack (x : Float) : Prop := reread x = x

/-- Whether a double is read back shows in its bits. -/
instance (x : Float) : Decidable (ReadsBack x) :=
  decidable_of_iff ((reread x).toBits = x.toBits) <| by
    refine ⟨fun hbits => ?_, congrArg Float.toBits⟩
    rw [ReadsBack, ← Binary64.ofBits_toBits (reread x), hbits, Binary64.ofBits_toBits]

/-- The text of a finite double has the parts of the shortest decimal that it is nearest to. -/
theorem numberText_eq {x : Float} {negative : Bool} {m : Nat} {q : Int} {text : NumberChars}
    (hshape : Binary64.shape x = .finite negative m q)
    (hchars : text.chars = decimalText (Decimal.shortest m q)) :
    Utf8.encodeChars (numberText x) = signedBytes negative text.parts := by
  have hsign : Utf8.encodeChars (if negative then ['-'] else []) =
      if negative then [Ascii.minus] else [] := by
    cases negative <;> rfl
  rw [numberText, hshape]
  dsimp only
  rw [Utf8.encodeChars_append, hsign, ← hchars, text.encodeChars_chars]
  rfl

/-- The parts of the text of the greatest double. -/
def greatestParts : NumberParts :=
  ⟨[0x31], some (Utf8.encodeChars (naturalText 7976931348623157)),
    some (false, Utf8.encodeChars (naturalText 308))⟩

/-- The text of the greatest double of either sign has a meaning. -/
theorem greatestParts_meaning (negative : Bool) :
    Utf8.encodeChars (numberText (Binary64.ofMagnitudeBits negative (Binary64.infinityBits - 1))) =
        signedBytes negative greatestParts ∧
      ((said negative greatestParts).double?).isSome = true := by
  cases negative <;> decide +kernel

/-- The text of a finite double has parts that follow the grammar and give a double. -/
theorem exists_parts_numberText {x : Float} (h : x.isFinite = true) :
    ∃ negative parts, Utf8.encodeChars (numberText x) = signedBytes negative parts ∧
      parts.WellFormed ∧ (said negative parts).integral = false ∧
        ∃ y, (said negative parts).double? = some y := by
  obtain ⟨negative, m, q, hshape, hlimit, hlow, hhigh⟩ := Binary64.shape_of_isFinite h
  have hbits := Binary64.nearestBits_lt_infinityBits hshape
  by_cases hgreatest : Binary64.nearestBits m q = Binary64.infinityBits - 1
  · obtain rfl : Binary64.ofMagnitudeBits negative (Binary64.infinityBits - 1) = x :=
      hgreatest ▸ Binary64.ofScaled_of_shape hshape
    obtain ⟨htext, hmeans⟩ := greatestParts_meaning negative
    have hone : NumberParts.Digits greatestParts.whole :=
      digits_encodeChars (digitChars_naturalText 1) Nat.toDigits_ne_nil
    refine ⟨negative, greatestParts, htext, ⟨hone, ?_, ?_, ?_⟩, rfl, Option.isSome_iff_exists.1 hmeans⟩
    · exact fun hlead => hlead.2 rfl
    · intro part hpart
      cases hpart
      exact digits_encodeChars (digitChars_naturalText _) Nat.toDigits_ne_nil
    · intro power hpower
      cases hpower
      exact digits_encodeChars (digitChars_naturalText _) Nat.toDigits_ne_nil
  · obtain ⟨text, hchars, hspell, hmodest⟩ :=
      NumberChars.exists_spell_decimalText (Decimal.shortest m q)
    have hnearest := Decimal.nearestBits_shortest hlimit hlow hhigh
    have hless : text.parts.decimal.value < PowerOfTen.limit := by
      refine Decimal.value_lt_of_nearestBits ?_
      rw [hspell.nearest, hnearest, PowerOfTen.nearestBits_limit]
      omega
    have hshort : text.parts.whole.length ≤ 16 :=
      (Utf8.encodeChars_digits hspell.wellFormed.whole).2.le.trans hmodest.whole
    have hpower : powerValue text.parts.power? < Numeral.powerLimit := by
      rw [text.powerValue_parts, Numeral.powerLimit]
      cases hsome : text.power? with
      | none => decide
      | some power =>
        have hle := hmodest.power_le (hnearest.trans_lt hbits) hsome
        rw [PowerOfTen.greatest] at hle
        rw [Option.getD_some]
        omega
    have hpointed : (said negative text.parts).integral = false := by
      rw [← hspell.pointed, Numeral.integral, said, NumberChars.parts]
      cases text.part? <;> cases text.power? <;> rfl
    exact ⟨negative, text.parts, numberText_eq hshape hchars, hspell.wellFormed.parts, hpointed,
      hspell.wellFormed.parts.exists_double? hshort hpower hless negative⟩

end Number

namespace Reader

/-- The text of a finite double is the form of a number that means what it is read as. -/
theorem numberForm_numberText {x : Float} (h : x.isFinite = true) :
    ∃ said, NumberForm (Utf8.encodeChars (numberText x)) said ∧
      said.value? = some (.float (reread x)) := by
  obtain ⟨negative, parts, hbytes, hwell, hpointed, y, hy⟩ := exists_parts_numberText h
  have hform : NumberForm (Utf8.encodeChars (numberText x)) (NumberParts.said negative parts) :=
    hbytes ▸ .parts negative hwell (NumberParts.powerForm_powerBytes parts.power?)
  have hvalue : (NumberParts.said negative parts).value? = some (.float y) := by
    unfold Numeral.value?
    dsimp only
    rw [if_neg fun hplain => by rw [hpointed] at hplain; exact Bool.false_ne_true hplain.1, hy]
    rfl
  have hread := hform.number_append hvalue apart_nil
  rw [List.append_nil] at hread
  refine ⟨_, hform, ?_⟩
  rw [reread, hread]
  exact hvalue

/-- The text of a finite double is read as what it is called. -/
theorem number_numberText {x : Float} {rest : Bytes} (h : x.isFinite = true)
    (hrest : Apart rest) :
    number (Utf8.encodeChars (numberText x) ++ rest) = .ok (.float (reread x), rest) := by
  obtain ⟨said, hform, hvalue⟩ := numberForm_numberText h
  exact hform.number_append hvalue hrest

end Reader

namespace Number

/-- What the text of a finite double is read as is finite. -/
theorem isFinite_reread {x : Float} (h : x.isFinite = true) : (reread x).isFinite = true := by
  obtain ⟨said, -, hvalue⟩ := Reader.numberForm_numberText h
  have hfinite := Numeral.isFinite_of_value? hvalue
  rwa [NumberValue.toFloat] at hfinite

/-- What is not finite stays what it is. -/
theorem reread_of_not_finite {x : Float} (h : x.isFinite = false) : reread x = x := by
  have hfield : x.toBits.toNat >>> 52 % 2048 = 2047 := by
    by_contra hfield
    rw [(Binary64.isFinite_iff_field x).2 hfield] at h
    cases h
  have htext : numberText x = ['N', 'a', 'N'] ∨ numberText x = ['i', 'n', 'f'] ∨
      numberText x = ['-', 'i', 'n', 'f'] := by
    rw [numberText, Binary64.shape, Binary64.shapeOfFields, if_pos hfield]
    by_cases hfraction : x.toBits.toNat % 0x10000000000000 = 0
    · rw [if_pos hfraction]
      cases decide (x.toBits.toNat / Binary64.signBit = 1)
      · exact .inr (.inl rfl)
      · exact .inr (.inr rfl)
    · rw [if_neg hfraction]
      exact .inl rfl
  rw [reread]
  rcases htext with htext | htext | htext <;> rw [htext] <;> rfl

end Number

namespace Reader

/-- The text of a whole number that fits 64 bits, with or without a sign, is the form of a number
that means it. -/
theorem numberForm_integerText {n : Int} (hlow : -0x8000000000000000 ≤ n)
    (hhigh : n < 0x10000000000000000) :
    ∃ said, NumberForm (Utf8.encodeChars (integerText n)) said ∧
      said.value? = some (.int n) := by
  have hw : NumberChars.WellFormed ⟨naturalText n.natAbs, none, none⟩ := by
    refine ⟨digitChars_naturalText _, Nat.toDigits_ne_nil, fun hzero => ?_, ?_⟩
    · by_cases hn : n.natAbs = 0
      · rw [hn]
        rfl
      · exact absurd hzero (head?_naturalText (Nat.pos_of_ne_zero hn))
    · intro part hpart
      cases hpart
  have hdigits := Utf8.digitsValue_encodeChars (digitChars_naturalText n.natAbs)
  rw [ofDigitChars_naturalText] at hdigits
  have hgather : Numeral.gather 0 (Utf8.encodeChars (naturalText n.natAbs)) =
      (Ascii.digitsValue (Utf8.encodeChars (naturalText n.natAbs)), 0) :=
    Numeral.gather_zero_of_lt (by omega)
  rw [hdigits] at hgather
  have hbytes : Utf8.encodeChars (integerText n) =
      (if decide (n < 0) then [Ascii.minus] else []) ++
        NumberParts.bytes (NumberChars.parts ⟨naturalText n.natAbs, none, none⟩) := by
    rw [← NumberChars.encodeChars_chars]
    rw [integerText, NumberChars.chars]
    by_cases hn : n < 0
    · simp only [hn, if_true, decide_true, Option.map_none, Option.getD_none, List.append_nil,
        Utf8.encodeChars_cons]
      rfl
    · simp only [hn, if_false, decide_false, Option.map_none, Option.getD_none, List.append_nil,
        Bool.false_eq_true, List.nil_append]
  have hform := NumberForm.parts (decide (n < 0)) hw.parts
    (NumberParts.powerForm_powerBytes (NumberChars.parts ⟨naturalText n.natAbs, none, none⟩).power?)
  refine ⟨_, hbytes ▸ hform, ?_⟩
  unfold Numeral.value? NumberParts.said NumberChars.parts
  dsimp only
  rw [hgather, if_pos ⟨rfl, rfl⟩]
  by_cases hn : n < 0
  · have hback : -(n.natAbs : Int) = n := by omega
    rw [if_pos (decide_eq_true hn), if_pos (by omega), hback]
  · have hback : (n.natAbs : Int) = n := by omega
    rw [if_neg (by simpa using hn), hback]

/-- The text of a whole number that fits 64 bits, with or without a sign, is read as that
number. -/
theorem number_integerText {n : Int} {rest : Bytes} (hlow : -0x8000000000000000 ≤ n)
    (hhigh : n < 0x10000000000000000) (hrest : Apart rest) :
    number (Utf8.encodeChars (integerText n) ++ rest) = .ok (.int n, rest) := by
  obtain ⟨said, hform, hvalue⟩ := numberForm_integerText hlow hhigh
  exact hform.number_append hvalue hrest

end Reader

end RobotSoccer
